import HsCommon.Astar.ShortestPath

/-!
# How many nodes a search takes

The allocator has 4095 slots to give after a load. A search that cannot reach the
end cell opens every cell of the region around the begin cell, and opens the begin
cell a second time when something leads back to it. When no cell but the begin
cell is a wall the search goes straight for the end cell and takes few slots.
-/

namespace HsCommon.Astar
open LabelSetting

namespace Exploration
variable {V : Type*} [DecidableEq V] {next : V → List V} {estimate : V → ℕ} {b goal : V}
  {e : Exploration V}

def region (next : V → List V) (b : V) : Set V := {v | ∃ vs c, Walk (Edge next) b v vs c}

def Returns (next : V → List V) (b : V) : Prop := ∃ u ∈ region next b, b ∈ next u

open Classical in
/-- The trails a search opens when it never meets its goal. -/
noncomputable def demand (next : V → List V) (b : V) : ℕ :=
  (region next b).ncard + if Returns next b then 1 else 0

omit [DecidableEq V] in
theorem Inv.here_mem_region (hI : Inv next b e) {t : Trail V} (ht : t ∈ e.opn ++ e.cls) :
    t.here ∈ region next b := by
  obtain ⟨vs, hw, -⟩ := hI.walks t ht
  exact ⟨vs, _, hw⟩

omit [DecidableEq V] in
theorem IsTrail.returns {t : Trail V} (h : IsTrail next b t) (hback : t.back ≠ [])
    (hb : t.here = b) : Returns next b := by
  obtain ⟨vs, hw, hcells⟩ := h
  rw [hb] at hw
  generalize t.cost = c at hw
  cases hw with
  | nil => exact absurd (List.cons.inj hcells).2 hback
  | @snoc u v vs c k hu he => exact ⟨u, ⟨vs, c, hu⟩, he.1⟩

omit [DecidableEq V] in
theorem Inv.size_le_demand (hI : Inv next b e) (hfin : (region next b).Finite) :
    e.size ≤ demand next b := by
  have hcard := Set.ncard_eq_toFinset_card (region next b) hfin
  have hS : ∀ t ∈ e.opn ++ e.cls, t.here ∈ hfin.toFinset := fun t ht =>
    hfin.mem_toFinset.mpr (hI.here_mem_region ht)
  rw [demand]
  split_ifs with hr
  · rw [hcard]
    exact hI.size_le hfin.toFinset hS
  · rw [hcard, Nat.add_zero]
    rcases hI.phase with rfl | ⟨hlast, hback⟩
    · exact Finset.card_pos.mpr ⟨b, hS ⟨b, []⟩ (by simp [start])⟩
    · -- with the start in front, the vertices met are still distinct
      have hnot : b ∉ e.opn.map Trail.here ++ seen e.cls := by
        rw [seen, ← List.map_append]
        intro hb
        obtain ⟨t, ht, hh⟩ := List.mem_map.mp hb
        have htm : t ∈ e.opn ++ e.cls :=
          (List.mem_append.mp ht).elim (List.mem_append_left _)
            fun h => List.mem_append_right _ (List.dropLast_subset _ h)
        exact hr ((hI.walks t htm).returns (hback t ht) hh)
      have hnd := List.nodup_cons.mpr ⟨hnot, hI.distinct⟩
      have hb : b ∈ hfin.toFinset := hfin.mem_toFinset.mpr ⟨[], 0, .nil⟩
      have hsub : ∀ v ∈ b :: (e.opn.map Trail.here ++ seen e.cls), v ∈ hfin.toFinset := by
        intro v hv
        rcases List.mem_cons.mp hv with rfl | hv
        · exact hb
        · rcases List.mem_append.mp hv with hv | hv
          · obtain ⟨t, ht, rfl⟩ := List.mem_map.mp hv
            exact hS t (List.mem_append_left _ ht)
          · obtain ⟨t, ht, rfl⟩ := List.mem_map.mp hv
            exact hS t (List.mem_append_right _ (List.dropLast_subset _ ht))
      have hlen := (hnd.subperm fun v hv => Finset.mem_toList.mpr (hsub v hv)).length_le
      rw [Finset.length_toList, List.length_cons, List.length_append, List.length_map,
        length_seen] at hlen
      simp only [size]
      omega

omit [DecidableEq V] in
theorem Inv.demand_le_size (hI : Inv next b e) (hnil : e.opn = []) : demand next b ≤ e.size := by
  classical
  obtain ⟨t, ht, htb⟩ := hI.exhausted hnil (.nil : Walk (Edge next) b b [] 0)
  have hpos := List.length_pos_of_mem ht
  have hothers : ∀ v ∈ region next b, v ≠ b → v ∈ seen e.cls := by
    rintro v ⟨vs, c, hw⟩ hv
    obtain ⟨t, ht, rfl⟩ := hI.exhausted hnil hw
    exact hI.here_mem_seen ht hv
  have hseen : ((seen e.cls).toFinset : Set V).ncard ≤ e.cls.length - 1 := by
    rw [Set.ncard_coe_finset, ← length_seen]
    exact List.toFinset_card_le _
  rw [demand, size, hnil, List.length_nil]
  split_ifs with hr
  · -- the start is among the vertices seen to be closed
    obtain ⟨u, ⟨vs, c, hu⟩, hbu⟩ := hr
    obtain ⟨t, ht, rfl⟩ := hI.exhausted hnil hu
    have hb : b ∈ seen e.cls := by
      rcases hI.covered t ht b hbu with h | h
      · rw [hnil] at h
        cases h
      · exact h
    have hsub : region next b ⊆ ((seen e.cls).toFinset : Set V) := by
      intro v hv
      rw [Finset.mem_coe, List.mem_toFinset]
      by_cases hvb : v = b
      · exact hvb ▸ hb
      · exact hothers v hv hvb
    have := Set.ncard_le_ncard hsub (Finset.finite_toSet _)
    omega
  · have hsub : region next b ⊆ insert b ((seen e.cls).toFinset : Set V) := by
      intro v hv
      by_cases hvb : v = b
      · exact hvb ▸ Set.mem_insert _ _
      · exact Set.mem_insert_of_mem _ (by
          rw [Finset.mem_coe, List.mem_toFinset]
          exact hothers v hv hvb)
    have h1 := Set.ncard_le_ncard hsub ((Finset.finite_toSet _).insert b)
    have h2 := Set.ncard_insert_le b ((seen e.cls).toFinset : Set V)
    omega

/-- The rounds go straight for the goal: each closes a trail opened in the round before, and the
vertices met so far are not nearer to the goal than that. -/
structure Straight (estimate : V → ℕ) (b : V) (e : Exploration V) : Prop where
  aim : ∃ k cur, lastMin (Trail.total estimate) e.opn = some (k, cur) ∧
    cur.total estimate = estimate b ∧ cur.cost = e.cls.length
  ahead : ∀ t ∈ e.opn, estimate b ≤ e.cls.length + estimate t.here
  behind : ∀ t ∈ e.cls, estimate b < e.cls.length + estimate t.here
  size : e.size ≤ 4 * e.cls.length + 1

omit [DecidableEq V] in
theorem straight_start (estimate : V → ℕ) (b : V) : Straight estimate b (start b) where
  aim := ⟨0, ⟨b, []⟩, rfl, by simp [Trail.total, Trail.cost], rfl⟩
  ahead := by simp [start]
  behind := by simp [start]
  size := by simp [start, Exploration.size]

theorem discovers_shape (cls : List (Trail V)) (cur : Trail V) (vs : List V)
    (old new : List (Trail V)) (hnew : ∀ t ∈ new, t.cost = cur.cost + 1) :
    ∃ old' new', vs.foldl (discover cls cur) (old ++ new) = old' ++ new' ∧
      old'.map Trail.here = old.map Trail.here ∧ new'.length ≤ new.length + vs.length ∧
      ∀ t ∈ new', t.cost = cur.cost + 1 := by
  induction vs generalizing old new with
  | nil => exact ⟨old, new, rfl, rfl, le_rfl, hnew⟩
  | cons v vs ih =>
    have hstep : ∃ old₁ new₁, discover cls cur (old ++ new) v = old₁ ++ new₁ ∧
        old₁.map Trail.here = old.map Trail.here ∧ new₁.length ≤ new.length + 1 ∧
        ∀ t ∈ new₁, t.cost = cur.cost + 1 := by
      simp only [discover]
      split_ifs
      · exact ⟨old, new, rfl, rfl, Nat.le_succ _, hnew⟩
      · refine ⟨old.map (improve cur v), new.map (improve cur v), List.map_append, ?_, ?_, ?_⟩
        · exact map_improve_here cur v old
        · rw [List.length_map]
          exact Nat.le_succ _
        · intro t ht
          obtain ⟨u, hu, rfl⟩ := List.mem_map.mp ht
          rw [improve, if_neg, hnew u hu]
          rw [hnew u hu]
          omega
      · refine ⟨old, new ++ [cur.extend v], List.append_assoc _ _ _, rfl, by simp, ?_⟩
        intro t ht
        rcases List.mem_append.mp ht with ht | ht
        · exact hnew t ht
        · rw [List.mem_singleton.mp ht]
          rfl
    obtain ⟨old₁, new₁, h₁, hh₁, hl₁, hc₁⟩ := hstep
    obtain ⟨old₂, new₂, h₂, hh₂, hl₂, hc₂⟩ := ih old₁ new₁ hc₁
    refine ⟨old₂, new₂, by rw [List.foldl_cons, h₁, h₂], hh₂.trans hh₁, ?_, hc₂⟩
    rw [List.length_cons]
    omega

omit [DecidableEq V] in
theorem lastMin_of_least {old new : List (Trail V)} {m : ℕ} {t : Trail V}
    (hle : ∀ u ∈ old ++ new, m ≤ u.total estimate) (ht : t ∈ new) (htm : t.total estimate = m) :
    ∃ k cur, lastMin (Trail.total estimate) (old ++ new) = some (k, cur) ∧
      cur.total estimate = m ∧ cur ∈ new := by
  cases hmin : lastMin (Trail.total estimate) (old ++ new) with
  | none =>
    have hnil := lastMin_eq_none.mp hmin
    rw [(List.append_eq_nil_iff.mp hnil).2] at ht
    cases ht
  | some p =>
    obtain ⟨k, cur⟩ := p
    obtain ⟨hk, hleast, hlater⟩ := lastMin_spec hmin
    have hge : cur.total estimate ≤ t.total estimate := hleast t (List.mem_append_right _ ht)
    have hm := hle cur (List.mem_of_getElem? hk)
    obtain ⟨j, hj, hjt⟩ := List.getElem_of_mem ht
    have hjk : old.length + j ≤ k := by
      by_contra hlt
      have := hlater (old.length + j) t (by omega) (by
        rw [List.getElem?_append_right (by omega), Nat.add_sub_cancel_left,
          List.getElem?_eq_getElem hj, hjt])
      omega
    rw [List.getElem?_append_right (by omega)] at hk
    exact ⟨k, cur, rfl, by omega, List.mem_of_getElem? hk⟩

omit [DecidableEq V] in
theorem Straight.fresh (hS : Straight estimate b e) {k : ℕ} {cur : Trail V} {v : V}
    (htotal : cur.cost + estimate cur.here = estimate b) (hcost : cur.cost = e.cls.length)
    (hest : estimate v + 1 = estimate cur.here) :
    v ∉ seen (cur :: e.cls) ∧ v ∉ (e.opn.eraseIdx k).map Trail.here := by
  constructor
  · intro hs
    obtain ⟨t, ht, rfl⟩ := List.mem_map.mp hs
    rcases List.mem_cons.mp (List.dropLast_subset _ ht) with rfl | ht
    · omega
    · have := hS.behind t ht
      omega
  · intro ho
    obtain ⟨t, ht, rfl⟩ := List.mem_map.mp ho
    have := hS.ahead t (List.mem_of_mem_eraseIdx ht)
    omega

theorem Straight.advance (hS : Straight estimate b e) (hI : Inv next b e)
    (hc : Consistent (Edge next) estimate) (hfour : ∀ u, (next u).length ≤ 4)
    (htoward : ∀ t ∈ e.opn, t.here ≠ goal → estimate t.here ≤ estimate b →
      ∃ v ∈ next t.here, estimate v + 1 = estimate t.here) :
    Straight estimate b (e.advance next estimate goal) := by
  obtain ⟨k, cur, hmin, htotal, hcost⟩ := hS.aim
  simp only [Exploration.advance, hmin]
  split_ifs with hgoal
  · exact hS
  have hI' := hI.expand_close hc hmin
  have hmem : cur ∈ e.opn := List.mem_of_getElem? (lastMin_spec hmin).1
  have hlt := (List.getElem?_eq_some_iff.mp (lastMin_spec hmin).1).1
  simp only [Trail.total] at htotal
  obtain ⟨v, hv, hest⟩ := htoward cur hmem hgoal (by omega)
  obtain ⟨old, new, hopn, hhere, hlen, hnew⟩ :=
    discovers_shape (cur :: e.cls) cur (next cur.here) (e.opn.eraseIdx k) [] (by simp)
  rw [List.append_nil] at hopn
  have hopn' : (expand next cur (close k cur e)).opn = old ++ new := hopn
  have hcls' : (expand next cur (close k cur e)).cls = cur :: e.cls := rfl
  have hnear : ∀ t ∈ old ++ new, estimate b ≤ (e.cls.length + 1) + estimate t.here := by
    intro t ht
    rw [← hopn] at ht
    rcases discovers_origin _ _ _ _ ht with ht | ⟨w, hw, rfl⟩
    · have := hS.ahead t (List.mem_of_mem_eraseIdx ht)
      omega
    · have := hc cur.here w 1 ⟨hw, rfl⟩
      rw [Trail.extend_here]
      omega
  -- the vertex one step nearer was not met before, so its trail is one of the new ones
  have hfresh : ∃ t ∈ new, t.total estimate = estimate b := by
    obtain ⟨hns, hno⟩ := @Straight.fresh _ _ _ _ hS k cur v htotal hcost hest
    rcases discovers_covers (cur :: e.cls) cur (next cur.here) (e.opn.eraseIdx k) hv with
      h | ⟨t, ht, rfl, -⟩
    · exact absurd h hns
    · rw [hopn] at ht
      rcases List.mem_append.mp ht with ht | ht
      · exact absurd (hhere ▸ List.mem_map_of_mem ht) hno
      · refine ⟨t, ht, ?_⟩
        rw [Trail.total, hnew t ht]
        omega
  have hleast : ∀ t ∈ old ++ new, estimate b ≤ t.total estimate := by
    intro t ht
    obtain ⟨vs, hw, -⟩ := hI'.walks t (List.mem_append_left _ (hopn' ▸ ht))
    exact hc.walk hw
  refine ⟨?_, ?_, ?_, ?_⟩
  · obtain ⟨t, ht, htt⟩ := hfresh
    obtain ⟨k', cur', hmin', htotal', hmem'⟩ := lastMin_of_least hleast ht htt
    refine ⟨k', cur', by rw [hopn', hmin'], htotal', ?_⟩
    rw [hnew cur' hmem', hcls', List.length_cons, hcost]
  · rw [hopn', hcls', List.length_cons]
    exact hnear
  · intro t ht
    rw [hcls', List.length_cons]
    rcases List.mem_cons.mp ht with rfl | ht
    · omega
    · have := hS.behind t ht
      omega
  · have hold : old.length = e.opn.length - 1 := by
      rw [← List.length_map, hhere, List.length_map, List.length_eraseIdx_of_lt hlt]
    have hf := hfour cur.here
    have hsz := hS.size
    simp only [Exploration.size, hopn', hcls', List.length_append, List.length_cons,
      List.length_nil] at hsz hlen ⊢
    omega

omit [DecidableEq V] in
theorem Straight.size_le (hS : Straight estimate b e) : e.size ≤ 4 * estimate b + 1 := by
  obtain ⟨k, cur, -, htotal, hcost⟩ := hS.aim
  have := hS.size
  simp only [Trail.total] at htotal
  omega

end Exploration

open Exploration

variable {aa : AstarArray} {data : ℕ → ℤ} {width height : ℕ} {b d : Cell} {s : AstarState}

def indexRegion (data : ℕ → ℤ) (width height : ℕ) (beginIndex : ℤ) : Set ℤ :=
  {i | ∃ p, IsPath data width height beginIndex i p}

def IndexReturns (data : ℕ → ℤ) (width height : ℕ) (beginIndex : ℤ) : Prop :=
  data beginIndex.toNat ≠ 1 ∧ ∃ j, AdjacentIndex width height beginIndex j ∧ data j.toNat ≠ 1

open Classical in
noncomputable def slotDemand (data : ℕ → ℤ) (width height : ℕ) (beginIndex : ℤ) : ℕ :=
  (indexRegion data width height beginIndex).ncard +
    if IndexReturns data width height beginIndex then 1 else 0

theorem region_inside (hb : aa.Inside b) : ∀ v ∈ region (successors aa) b, aa.Inside v := by
  rintro v ⟨vs, c, hw⟩
  exact walk_inside hb hw v (List.mem_of_getLast? (walk_end_mem hw))

theorem region_finite (hb : aa.Inside b) : (region (successors aa) b).Finite :=
  (Finset.finite_toSet (insideCells aa)).subset fun v hv =>
    Finset.mem_coe.mpr (mem_insideCells.mpr (region_inside hb v hv))

theorem IsPath.end_inside (h : Holds aa data width height) (hb : aa.Inside b) {i : ℤ} {p : List ℤ}
    (hp : IsPath data width height (aa.indexOf b) i p) : ∃ t, aa.Inside t ∧ aa.indexOf t = i := by
  obtain ⟨hfirst, hlast, hchain, -⟩ := hp
  rcases List.eq_nil_or_concat p with rfl | ⟨q, j, rfl⟩
  · cases hfirst
  · rw [List.concat_eq_append] at hfirst hlast hchain
    obtain rfl : j = i := by simpa using hlast
    cases hq : q.getLast? with
    | none =>
      obtain rfl := List.getLast?_eq_none_iff.mp hq
      exact ⟨b, hb, (Option.some.inj hfirst).symm⟩
    | some x =>
      have hadj := (List.isChain_append.mp hchain).2.2 x hq j rfl
      obtain ⟨-, -, x', y', -, -, hx, hy, -, -, hj⟩ := hadj
      refine ⟨(x', y'), ⟨h.width_eq ▸ hx, h.height_eq ▸ hy⟩, ?_⟩
      rw [hj, AstarArray.indexOf, h.width_eq]

theorem Holds.indexRegion_eq (h : Holds aa data width height) (hb : aa.Inside b) :
    indexRegion data width height (aa.indexOf b) = aa.indexOf '' region (successors aa) b := by
  ext i
  constructor
  · rintro ⟨p, hp⟩
    obtain ⟨t, ht, rfl⟩ := hp.end_inside h hb
    obtain ⟨vs, hw, -⟩ := h.walk_of_path hb ht hp
    exact ⟨t, ⟨vs, _, hw⟩, rfl⟩
  · rintro ⟨t, ⟨vs, c, hw⟩, rfl⟩
    exact ⟨_, h.path_of_walk hb hw⟩

theorem Adjacent.symm {c c' : Cell} (h : Adjacent c c') : Adjacent c' c := by
  simp only [Adjacent] at h ⊢
  omega

theorem Adjacent.irrefl (c : Cell) : ¬ Adjacent c c := by
  simp only [Adjacent]
  omega

theorem returns_cell (h : Returns (successors aa) b) :
    aa.Free b ∧ ∃ v, v ∈ successors aa b := by
  obtain ⟨u, ⟨vs, c, hw⟩, hb⟩ := h
  obtain ⟨hfree, hadj⟩ := mem_successors.mp hb
  refine ⟨hfree, u, mem_successors.mpr ⟨?_, hadj.symm⟩⟩
  cases hw with
  | nil => exact absurd hadj (Adjacent.irrefl b)
  | snoc _ he => exact (mem_successors.mp he.1).1

theorem Holds.indexReturns_iff (h : Holds aa data width height) (hb : aa.Inside b) :
    IndexReturns data width height (aa.indexOf b) ↔ Returns (successors aa) b := by
  constructor
  · rintro ⟨hfree, j, hadj, hj⟩
    obtain ⟨-, -, x, y, -, -, hx, hy, -, -, hji⟩ := id hadj
    have hin : aa.Inside (x, y) := ⟨h.width_eq ▸ hx, h.height_eq ▸ hy⟩
    have hjv : j = aa.indexOf (x, y) := by rw [hji, AstarArray.indexOf, h.width_eq]
    subst hjv
    have ha := (h.adjacent_iff hb hin).mp hadj
    have hedge : Edge (successors aa) b (x, y) 1 :=
      ⟨mem_successors.mpr ⟨(h.free_iff hin).mpr hj, ha⟩, rfl⟩
    exact ⟨(x, y), ⟨_, _, Walk.nil.snoc hedge⟩,
      mem_successors.mpr ⟨(h.free_iff hb).mpr hfree, ha.symm⟩⟩
  · intro hr
    obtain ⟨hbfree, v, hv⟩ := returns_cell hr
    obtain ⟨hvfree, hadj⟩ := mem_successors.mp hv
    exact ⟨(h.free_iff hb).mp hbfree, aa.indexOf v, (h.adjacent_iff hb hvfree.1).mpr hadj,
      (h.free_iff hvfree.1).mp hvfree⟩

theorem Holds.slotDemand_eq (h : Holds aa data width height) (hb : aa.Inside b) :
    slotDemand data width height (aa.indexOf b) = demand (successors aa) b := by
  have hinj : Set.InjOn aa.indexOf (region (successors aa) b) := fun c hc c' hc' he =>
    indexOf_injective (region_inside hb c hc) (region_inside hb c' hc') he
  rw [slotDemand, demand, h.indexRegion_eq hb, hinj.ncard_image]
  have hiff := h.indexReturns_iff hb
  by_cases hr : Returns (successors aa) b
  · rw [if_pos (hiff.mpr hr), if_pos hr]
  · rw [if_neg (mt hiff.mp hr), if_neg hr]

def AllocsSucceed (aa : AstarArray) (s : AstarState) (beginIndex endIndex : ℤ) : Prop :=
  ∀ fuel res, hsAstarFindPath fuel aa beginIndex endIndex res s ≠ .error .nullPointer

structure Recycled (s : AstarState) : Prop where
  ok : s.Ok
  inited : s.allocData.inited ≠ 0
  cursor : s.cursor = 0

theorem Returned.stop {res : AstarRes} {e : Exploration Cell} {out : Outcome}
    (h : Returned aa d res e out) : round aa d e = e := by
  cases h with
  | noPath _ _ hnil _ => simp only [round, advance, hnil, lastMin_eq_none.mpr rfl]
  | found hmin hcur _ _ _ _ => simp only [round, advance, hmin, if_pos hcur]

theorem Returned.stop_add {res : AstarRes} {e : Exploration Cell} {n : ℕ} {out : Outcome}
    (h : Returned aa d res ((round aa d)^[n] e) out) (m : ℕ) :
    (round aa d)^[m + n] e = (round aa d)^[n] e := by
  rw [Function.iterate_add_apply]
  exact Function.iterate_fixed h.stop m

theorem size_le_iterate (aa : AstarArray) (d : Cell) (e : Exploration Cell) (n : ℕ) :
    e.size ≤ ((round aa d)^[n] e).size := by
  induction n with
  | zero => exact le_rfl
  | succ n ih =>
    rw [Function.iterate_succ_apply']
    exact ih.trans (size_le_advance _ _ _ _)

theorem allocsSucceed_iff (ha : aa.Loaded) (hs : Recycled s) (hb : aa.Inside b)
    (hd : aa.Inside d) :
    AllocsSucceed aa s (aa.indexOf b) (aa.indexOf d) ↔
      ∀ n, ((round aa d)^[n] (start b)).size ≤ 4095 := by
  constructor
  · intro h m
    rcases hsAstarFindPath_spec ha hs.ok hb hd .blank (aa.width * aa.height + 2) with
      ⟨out, n, -, -, hout⟩ | ⟨ho, -⟩ | ⟨-, hshort⟩
    · have hsize := hout.room
      have hfix := hout.returned.stop_add m
      have hle := size_le_iterate aa d ((round aa d)^[m] (start b)) n
      rw [← Function.iterate_add_apply, Nat.add_comm n m, hfix] at hle
      omega
    · exact absurd ho (h _ _)
    · omega
  · intro h fuel res ho
    rcases hsAstarFindPath_spec ha hs.ok hb hd res fuel with
      ⟨out, n, -, ho', -⟩ | ⟨-, hi | ⟨n, hn⟩⟩ | ⟨ho', -⟩
    · rw [ho'] at ho
      cases ho
    · exact hs.inited hi
    · have := h n
      rw [hs.cursor] at hn
      omega
    · rw [ho'] at ho
      cases ho

theorem allocsSucceed_of_demand (ha : aa.Loaded) (hs : Recycled s) (hb : aa.Inside b)
    (hd : aa.Inside d) (h : demand (successors aa) b ≤ 4095) :
    AllocsSucceed aa s (aa.indexOf b) (aa.indexOf d) :=
  (allocsSucceed_iff ha hs hb hd).mpr fun n =>
    ((inv_rounds aa b d n).size_le_demand (region_finite hb)).trans h

theorem demand_le_of_allocsSucceed (ha : aa.Loaded) (hs : Recycled s) (hb : aa.Inside b)
    (hd : aa.Inside d) (hunreach : d ∉ region (successors aa) b)
    (h : AllocsSucceed aa s (aa.indexOf b) (aa.indexOf d)) : demand (successors aa) b ≤ 4095 := by
  rcases hsAstarFindPath_spec ha hs.ok hb hd .blank (aa.width * aa.height + 2) with
    ⟨out, n, -, -, hout⟩ | ⟨ho, -⟩ | ⟨-, hshort⟩
  · have hI := inv_rounds aa b d n
    have hsize := hout.room
    cases hout.returned with
    | noPath _ _ hnil _ =>
      have := hI.demand_le_size hnil
      omega
    | found hmin hcur _ _ _ _ =>
      have hmem := List.mem_of_getElem? (lastMin_spec hmin).1
      exact absurd (hcur ▸ hI.here_mem_region (List.mem_append_left _ hmem)) hunreach
  · exact absurd ho (h _ _)
  · omega

theorem successors_length_le (aa : AstarArray) (c : Cell) : (successors aa c).length ≤ 4 :=
  List.length_filterMap_le _ _

theorem exists_toward {u : Cell} (hu : aa.Inside u) (hd : aa.Inside d) (hne : u ≠ d) :
    ∃ v, aa.Inside v ∧ Adjacent u v ∧ manhattan d v + 1 = manhattan d u := by
  obtain ⟨x, y⟩ := u
  obtain ⟨dx, dy⟩ := d
  obtain ⟨hux, huy⟩ := hu
  obtain ⟨hdx, hdy⟩ := hd
  simp only at hux huy hdx hdy
  simp only [AstarArray.Inside, Adjacent, manhattan, Prod.exists]
  rcases lt_trichotomy x dx with h | rfl | h
  · exact ⟨x + 1, y, by omega, by omega, by omega⟩
  · rcases lt_trichotomy y dy with h | rfl | h
    · exact ⟨x, y + 1, by omega, by omega, by omega⟩
    · exact absurd rfl hne
    · exact ⟨x, y - 1, by omega, by omega, by omega⟩
  · exact ⟨x - 1, y, by omega, by omega, by omega⟩

theorem straight_iterate (hb : aa.Inside b) (hd : aa.Inside d)
    (hopen : ∀ c, aa.Inside c → c ≠ b → aa.Free c) (n : ℕ) :
    Straight (manhattan d) b ((round aa d)^[n] (start b)) := by
  induction n with
  | zero => exact straight_start (manhattan d) b
  | succ n ih =>
    rw [Function.iterate_succ_apply']
    have hI := inv_rounds aa b d n
    refine ih.advance hI (consistent_manhattan aa d) (successors_length_le aa) ?_
    intro t ht hne hle
    have hin := region_inside hb _ (hI.here_mem_region (List.mem_append_left _ ht))
    obtain ⟨v, hv, hadj, hest⟩ := exists_toward hin hd hne
    have hvb : v ≠ b := by
      rintro rfl
      omega
    exact ⟨v, mem_successors.mpr ⟨hopen v hv hvb, hadj⟩, hest⟩

theorem allocsSucceed_of_open (ha : aa.Loaded) (hs : Recycled s) (hb : aa.Inside b)
    (hd : aa.Inside d) (hopen : ∀ c, aa.Inside c → c ≠ b → aa.Free c) :
    AllocsSucceed aa s (aa.indexOf b) (aa.indexOf d) := by
  refine (allocsSucceed_iff ha hs hb hd).mpr fun n => ?_
  have hle := (straight_iterate hb hd hopen n).size_le
  have hfar : manhattan d b ≤ 254 := by
    have := hb.1
    have := hb.2
    have := hd.1
    have := hd.2
    have := ha.width_le
    have := ha.height_le
    simp only [manhattan]
    omega
  omega

theorem region_free {v : Cell} (hv : v ∈ region (successors aa) b) : v = b ∨ aa.Free v := by
  obtain ⟨vs, c, hw⟩ := hv
  cases hw with
  | nil => exact Or.inl rfl
  | snoc _ he => exact Or.inr (mem_successors.mp he.1).1

theorem recycled_of_load {ta : AstarArray} {s₀ : AstarState} (hs : Reached s₀)
    (hload : (hsAstarLoadData (some data) width height ta s₀).1 = 0) :
    Recycled (hsAstarLoadData (some data) width height ta s₀).2.2 := by
  rw [(hsAstarLoadData_loaded hload).2]
  obtain ⟨hok, hin, hcur⟩ := astarNodeAllocatorRecycle_spec hs.ok
  exact ⟨hok, hin, hcur⟩

theorem Holds.open_iff (h : Holds aa data width height) (hb : aa.Inside b) :
    (∀ i < width * height, ((i : ℕ) : ℤ) ≠ aa.indexOf b → data i ≠ 1) ↔
      ∀ c, aa.Inside c → c ≠ b → aa.Free c := by
  constructor
  · intro hopen c hc hne
    refine (h.free_iff hc).mpr (hopen _ ?_ ?_)
    · rw [← h.width_eq, ← h.height_eq]
      exact indexOf_lt hc
    · exact fun he => hne (indexOf_injective hc hb he)
  · intro hopen i hi hne
    have hi' : (i : ℤ) < ((aa.width * aa.height : ℕ) : ℤ) := by
      rw [h.width_eq, h.height_eq]
      exact_mod_cast hi
    obtain ⟨c, hc, hce⟩ := exists_cell h.loaded (Int.natCast_nonneg i) hi'
    have hfree := (h.free_iff hc).mp (hopen c hc fun he => hne (he ▸ hce.symm))
    rwa [hce] at hfree

/-- The slots suffice for every end cell exactly if nothing but the begin cell is a wall or the
region of the begin cell is small. The latter is also what an end cell that cannot be reached
takes, and any end cell takes what the exploration takes. -/
theorem hsAstarFindPath_allocs (data : ℕ → ℤ) (width height : ℕ) (ta : AstarArray)
    (s₀ : AstarState) (hs : Reached s₀)
    (hload : (hsAstarLoadData (some data) width height ta s₀).1 = 0) (beginIndex : ℤ)
    (hb : 0 ≤ beginIndex ∧ beginIndex < ((width * height : ℕ) : ℤ)) :
    let aa := (hsAstarLoadData (some data) width height ta s₀).2.1
    let s := (hsAstarLoadData (some data) width height ta s₀).2.2
    ((∀ endIndex, 0 ≤ endIndex → endIndex < ((width * height : ℕ) : ℤ) →
        AllocsSucceed aa s beginIndex endIndex) ↔
      (∀ i < width * height, ((i : ℕ) : ℤ) ≠ beginIndex → data i ≠ 1) ∨
        slotDemand data width height beginIndex ≤ 4095) ∧
    (∀ endIndex, 0 ≤ endIndex → endIndex < ((width * height : ℕ) : ℤ) →
      endIndex ∉ indexRegion data width height beginIndex →
      (AllocsSucceed aa s beginIndex endIndex ↔ slotDemand data width height beginIndex ≤ 4095)) ∧
    ∀ b d, aa.Inside b → aa.Inside d → aa.indexOf b = beginIndex →
      (AllocsSucceed aa s beginIndex (aa.indexOf d) ↔
        ∀ n, ((round aa d)^[n] (start b)).size ≤ 4095) := by
  intro aa s
  have h : Holds aa data width height := holds_of_load hload
  have hr : Recycled s := recycled_of_load hs hload
  have hw := h.width_eq
  have hh := h.height_eq
  rw [← hw, ← hh] at hb
  obtain ⟨b, hbi, hbe⟩ := exists_cell h.loaded hb.1 hb.2
  rw [← hbe, h.slotDemand_eq hbi]
  refine ⟨⟨?_, ?_⟩, ?_, ?_⟩
  · intro hall
    by_cases hopen : ∀ c, aa.Inside c → c ≠ b → aa.Free c
    · exact Or.inl ((h.open_iff hbi).mpr hopen)
    · push Not at hopen
      obtain ⟨d, hd, hne, hwall⟩ := hopen
      have hout : d ∉ region (successors aa) b := fun hmem =>
        (region_free hmem).elim hne hwall
      have harea : width * height = aa.width * aa.height := by rw [hw, hh]
      exact Or.inr (demand_le_of_allocsSucceed h.loaded hr hbi hd hout
        (hall _ (Int.natCast_nonneg _) (harea ▸ Int.ofNat_lt.mpr (indexOf_lt hd))))
  · intro hcond e he0 he
    rw [← hw, ← hh] at he
    obtain ⟨d, hd, rfl⟩ := exists_cell h.loaded he0 he
    rcases hcond with hopen | hsmall
    · exact allocsSucceed_of_open h.loaded hr hbi hd ((h.open_iff hbi).mp hopen)
    · exact allocsSucceed_of_demand h.loaded hr hbi hd hsmall
  · intro e he0 he hout
    rw [← hw, ← hh] at he
    obtain ⟨d, hd, rfl⟩ := exists_cell h.loaded he0 he
    refine ⟨demand_le_of_allocsSucceed h.loaded hr hbi hd ?_,
      allocsSucceed_of_demand h.loaded hr hbi hd⟩
    intro hmem
    rw [h.indexRegion_eq hbi] at hout
    exact hout ⟨d, hmem, rfl⟩
  · intro b' d hb' hd hbe'
    obtain rfl := indexOf_injective hb' hbi hbe'
    exact allocsSucceed_iff h.loaded hr hb' hd

theorem hsAstarFindPath_allocs_corner :
    let aa := (hsAstarLoadData (some cornerWall) 2 2 .blank (.start fun _ => .zero)).2.1
    let s := (hsAstarLoadData (some cornerWall) 2 2 .blank (.start fun _ => .zero)).2.2
    (∀ endIndex, 0 ≤ endIndex → endIndex < 4 → AllocsSucceed aa s 0 endIndex) ↔
      (∀ i < 4, ((i : ℕ) : ℤ) ≠ 0 → cornerWall i ≠ 1) ∨ slotDemand cornerWall 2 2 0 ≤ 4095 :=
  (hsAstarFindPath_allocs cornerWall 2 2 .blank (.start fun _ => .zero) (.start _) rfl 0
    (by decide)).1

def lastWall (i : ℕ) : ℤ := if i = 16383 then 1 else 0

theorem region_snoc {u v : Cell} (hu : u ∈ region (successors aa) b) (hv : v ∈ successors aa u) :
    v ∈ region (successors aa) b := by
  obtain ⟨vs, c, hw⟩ := hu
  exact ⟨_, _, hw.snoc ⟨hv, rfl⟩⟩

theorem lastWall_region (h : Holds aa lastWall 128 128) {x y : ℕ} (hx : x < 128) (hy : y < 32) :
    (x, y) ∈ region (successors aa) (0, 0) := by
  have hfree : ∀ x y : ℕ, x < 128 → y < 32 → aa.Free (x, y) := by
    intro x y hx hy
    have hin : aa.Inside (x, y) := ⟨by rw [h.width_eq]; exact hx, by rw [h.height_eq]; omega⟩
    refine (h.free_iff hin).mpr ?_
    rw [AstarArray.indexOf, Int.toNat_natCast, h.width_eq, lastWall, if_neg (by dsimp only; omega)]
    exact zero_ne_one
  induction y with
  | zero =>
    induction x with
    | zero => exact ⟨[], 0, .nil⟩
    | succ x ih =>
      refine region_snoc (ih (by omega)) (mem_successors.mpr ⟨hfree _ _ hx hy, ?_⟩)
      simp [Adjacent]
  | succ y ih =>
    refine region_snoc (ih (by omega)) (mem_successors.mpr ⟨hfree _ _ hx hy, ?_⟩)
    simp [Adjacent]

theorem mul_le_ncard {m n : ℕ} {S : Set Cell} (hfin : S.Finite)
    (h : ∀ x y, x < m → y < n → (x, y) ∈ S) : m * n ≤ S.ncard := by
  have hsub : ((Finset.range m ×ˢ Finset.range n : Finset Cell) : Set Cell) ⊆ S := by
    intro c hc
    rw [Finset.mem_coe, Finset.mem_product, Finset.mem_range, Finset.mem_range] at hc
    exact h c.1 c.2 hc.1 hc.2
  have hle := Set.ncard_le_ncard hsub hfin
  rwa [Set.ncard_coe_finset, Finset.card_product, Finset.card_range, Finset.card_range] at hle

theorem lastWall_demand (h : Holds aa lastWall 128 128) : 4096 ≤ demand (successors aa) (0, 0) := by
  have hin : aa.Inside (0, 0) := ⟨h.loaded.width_pos, h.loaded.height_pos⟩
  have hle := mul_le_ncard (region_finite hin) fun x y => @lastWall_region aa h x y
  have hdem : (region (successors aa) (0, 0)).ncard ≤ demand (successors aa) (0, 0) :=
    Nat.le_add_right _ _
  omega

theorem hsAstarFindPath_lastWall_null :
    let load := hsAstarLoadData (some lastWall) 128 128 .blank (.start fun _ => .zero)
    load.1 = 0 ∧ ¬ AllocsSucceed load.2.1 load.2.2 0 16383 := by
  intro load
  have hload : load.1 = 0 := rfl
  have h : Holds load.2.1 lastWall 128 128 := holds_of_load hload
  have hr : Recycled load.2.2 := recycled_of_load (.start _) hload
  have hb : load.2.1.Inside (0, 0) := ⟨h.loaded.width_pos, h.loaded.height_pos⟩
  have hd : load.2.1.Inside (127, 127) :=
    ⟨h.width_eq.symm ▸ Nat.lt_succ_self 127, h.height_eq.symm ▸ Nat.lt_succ_self 127⟩
  have hb0 : load.2.1.indexOf (0, 0) = 0 := by simp [AstarArray.indexOf]
  have hd0 : load.2.1.indexOf (127, 127) = 16383 := by simp [AstarArray.indexOf, h.width_eq]
  have hout : (127, 127) ∉ region (successors load.2.1) (0, 0) := by
    intro hmem
    rcases region_free hmem with he | hf
    · cases he
    · refine (h.free_iff hd).mp hf ?_
      rw [hd0]
      rfl
  refine ⟨hload, fun hall => ?_⟩
  rw [← hb0, ← hd0] at hall
  have := demand_le_of_allocsSucceed h.loaded hr hb hd hout hall
  have := lastWall_demand h
  omega

end HsCommon.Astar
