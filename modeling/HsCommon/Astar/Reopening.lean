import HsCommon.Astar.SearchSteps
import HsCommon.Astar.Capacity

/-!
# The begin cell opened again

`is_in_closed` never looks at the node that was closed first, the begin cell's. So a search opens
the begin cell again when it expands a neighbour of it, and then two nodes hold the same cell. It
expands none if the begin cell is a wall, has no way out, is the end cell or is next to it.
-/

open Outcome

namespace HsCommon.Astar
open LabelSetting Transition

namespace Exploration
variable {V : Type*} [DecidableEq V] {next : V → List V} {estimate : V → ℕ} {b goal : V}
  {e : Exploration V}

def Avoids (next : V → List V) (estimate : V → ℕ) (b goal : V) : Prop :=
  ∀ e k t, Inv next b e → (∀ u ∈ e.cls, u.here ≠ goal) →
    lastMin (Trail.total estimate) e.opn = some (k, t) → t.here ≠ goal → b ∉ next t.here

structure Head (next : V → List V) (estimate : V → ℕ) (b goal : V) (e : Exploration V) :
    Prop where
  inv : Inv next b e
  away : ∀ u ∈ e.cls, u.here ≠ goal
  fresh : Avoids next estimate b goal → e = start b ∨ b ∉ e.opn.map Trail.here ++ seen e.cls

omit [DecidableEq V] in
theorem head_start (next : V → List V) (estimate : V → ℕ) (b goal : V) :
    Head next estimate b goal (start b) where
  inv := inv_start next b
  away u hu := by cases hu
  fresh _ := Or.inl rfl

omit [DecidableEq V] in
theorem Head.close_fresh (h : Head next estimate b goal e) (ha : Avoids next estimate b goal)
    {k : ℕ} {t : Trail V} (hmin : lastMin (Trail.total estimate) e.opn = some (k, t)) :
    b ∉ (e.opn.eraseIdx k).map Trail.here ++ seen (t :: e.cls) := by
  have hk := (lastMin_spec hmin).1
  rcases h.fresh ha with rfl | hnot
  · obtain ⟨hlt, -⟩ := List.getElem?_eq_some_iff.mp hk
    have hzero : k = 0 := by
      simp only [start, List.length_singleton] at hlt
      omega
    subst hzero
    exact List.not_mem_nil
  · intro hb
    apply hnot
    rcases List.mem_append.mp hb with hb | hb
    · exact List.mem_append_left _
        (((List.eraseIdx_sublist e.opn k).map Trail.here).subset hb)
    · by_cases hnil : e.cls = []
      · rw [hnil] at hb
        cases hb
      · rw [seen_cons hnil] at hb
        rcases List.mem_cons.mp hb with rfl | hb
        · exact List.mem_append_left _ (List.mem_map_of_mem (List.mem_of_getElem? hk))
        · exact List.mem_append_right _ hb

theorem discover_fresh {cls : List (Trail V)} {cur : Trail V} {opn : List (Trail V)} {v : V}
    (hb : b ∉ opn.map Trail.here ++ seen cls) (hv : v ≠ b) :
    b ∉ (discover cls cur opn v).map Trail.here ++ seen cls := by
  rcases discover_here cls cur opn v with he | ⟨-, -, he⟩
  · rwa [he]
  · rw [he, List.map_append, List.append_assoc]
    intro hmem
    rcases List.mem_append.mp hmem with hm | hm
    · exact hb (List.mem_append_left _ hm)
    · rcases List.mem_cons.mp hm with hbv | hm
      · exact hv hbv.symm
      · exact hb (List.mem_append_right _ hm)

theorem discovers_fresh {cls : List (Trail V)} {cur : Trail V} (vs : List V)
    {opn : List (Trail V)} (hb : b ∉ opn.map Trail.here ++ seen cls) (hvs : b ∉ vs) :
    b ∉ (vs.foldl (discover cls cur) opn).map Trail.here ++ seen cls := by
  induction vs generalizing opn with
  | nil => exact hb
  | cons v vs ih =>
    rw [List.mem_cons, not_or] at hvs
    exact ih (discover_fresh hb fun hv => hvs.1 hv.symm) hvs.2

theorem Head.expand_close (h : Head next estimate b goal e) (hc : Consistent (Edge next) estimate)
    {k : ℕ} {t : Trail V} (hmin : lastMin (Trail.total estimate) e.opn = some (k, t))
    (hne : t.here ≠ goal) : Head next estimate b goal (expand next t (close k t e)) where
  inv := h.inv.expand_close hc hmin
  away u hu := by
    rcases List.mem_cons.mp hu with rfl | hu
    · exact hne
    · exact h.away u hu
  fresh ha := by
    refine Or.inr (discovers_fresh (next t.here) (h.close_fresh ha hmin) ?_)
    exact ha e k t h.inv h.away hmin hne

omit [DecidableEq V] in
theorem here_perm {opn cls : List (Trail V)} (hlast : cls.getLast? = some ⟨b, []⟩) :
    ((opn ++ cls).map Trail.here).Perm (b :: (opn.map Trail.here ++ seen cls)) := by
  have hne : cls ≠ [] := by
    intro hnil
    rw [hnil] at hlast
    cases hlast
  have hsplit := List.dropLast_append_getLast hne
  rw [List.getLast?_eq_getLast_of_ne_nil hne, Option.some.injEq] at hlast
  have hcls : cls.map Trail.here = seen cls ++ [b] := by
    have hmap := congrArg (List.map Trail.here) hsplit
    rw [List.map_append, hlast] at hmap
    exact hmap.symm
  rw [List.map_append, hcls, ← List.append_assoc]
  exact List.perm_append_singleton b _

omit [DecidableEq V] in
theorem nodup_iff {opn cls : List (Trail V)} (hlast : cls.getLast? = some ⟨b, []⟩) :
    ((opn ++ cls).map Trail.here).Nodup ↔ b ∉ opn.map Trail.here ++ seen cls ∧
      (opn.map Trail.here ++ seen cls).Nodup := by
  rw [(here_perm hlast).nodup_iff, List.nodup_cons]

end Exploration

open Exploration

variable {aa : AstarArray} {b d : Cell} {base : ℕ} {opn cls : List Slot}
  {todo : List (NodePtr × ℤ × ℤ)} {found : Bool}

structure CellReopens (aa : AstarArray) (b d : Cell) : Prop where
  returns : Returns (successors aa) b
  ne : b ≠ d
  far : d ∉ successors aa b

theorem avoids_of_not_reopens (h : ¬ CellReopens aa b d) :
    Avoids (successors aa) (manhattan d) b d := by
  intro e k t hI haway hmin hne hb
  obtain ⟨hk, hle, -⟩ := lastMin_spec hmin
  have hmem : t ∈ e.opn := List.mem_of_getElem? hk
  have hreturns : Returns (successors aa) b :=
    ⟨t.here, hI.here_mem_region (List.mem_append_left _ hmem), hb⟩
  rcases hI.phase with rfl | ⟨hlast, hback⟩
  · rw [start, List.mem_singleton] at hmem
    have hadj := (mem_successors.mp hb).2
    rw [hmem] at hadj
    exact absurd hadj (Adjacent.irrefl b)
  have hroot := List.mem_of_getLast? hlast
  refine h ⟨hreturns, haway _ hroot, fun hd => ?_⟩
  -- the end cell is open at cost 1, so it is removed before any other cell
  rcases hI.labels.relaxed b 0 d 1 ⟨_, hroot, fun _ => rfl, rfl⟩ ⟨hd, rfl⟩ with
    ⟨a, u, hu, -, heq⟩ | ⟨c, hc, u, hu, heq⟩
  · exact haway u hu (congrArg Prod.fst heq).symm
  · obtain ⟨hud, rfl⟩ := Prod.mk.inj heq
    have htotal := hle u hu
    have hcost : 0 < t.cost :=
      List.length_pos_iff.mpr (hback t (List.mem_append_left _ hmem))
    simp only [Trail.total, ← hud, manhattan] at htotal
    exact hne (Prod.ext (by omega) (by omega))

theorem reopened {e : Exploration Cell} (h : CellReopens aa b d) (hI : Inv (successors aa) b e)
    {t : Trail Cell} (ht : t ∈ e.cls) (hb : t.here ∈ successors aa b) :
    b ∈ e.opn.map Trail.here ++ seen e.cls := by
  have hback : b ∈ successors aa t.here :=
    mem_successors.mpr ⟨(returns_cell h.returns).1, (mem_successors.mp hb).2.symm⟩
  exact List.mem_append.mpr (hI.covered t ht b hback)

theorem not_nodup_exhausted {e : Exploration Cell} (h : CellReopens aa b d)
    (hI : Inv (successors aa) b e) (hnil : e.opn = []) :
    ¬ ((e.opn ++ e.cls).map Trail.here).Nodup := by
  rcases hI.phase with rfl | ⟨hlast, -⟩
  · cases hnil
  rw [nodup_iff hlast, not_and_or, not_not]
  obtain ⟨v, hv⟩ := (returns_cell h.returns).2
  refine Or.inl ?_
  rcases hI.covered _ (List.mem_of_getLast? hlast) v hv with ho | hs
  · rw [hnil] at ho
    cases ho
  · obtain ⟨t, ht, rfl⟩ := List.mem_map.mp hs
    exact reopened h hI (List.dropLast_subset _ ht) hv

theorem not_nodup_found {e : Exploration Cell} (h : CellReopens aa b d)
    (hI : Inv (successors aa) b e) {k : ℕ} {t : Trail Cell}
    (hmin : lastMin (Trail.total (manhattan d)) e.opn = some (k, t)) (ht : t.here = d)
    (hclosed : ∀ v ∈ t.back, v ∈ e.cls.map Trail.here) :
    ¬ (((e.opn.eraseIdx k) ++ (t :: e.cls)).map Trail.here).Nodup := by
  have hk := (lastMin_spec hmin).1
  have hmem : t ∈ e.opn := List.mem_of_getElem? hk
  rw [nodup_iff (hI.getLast_close hmin), not_and_or, not_not]
  refine Or.inl ?_
  obtain ⟨vs, hw, hcells⟩ := hI.walks t (List.mem_append_left _ hmem)
  rw [ht] at hw
  rcases hw.exists_first with ⟨-, rfl⟩ | ⟨v, ws, j, rfl, hv⟩
  · exact absurd rfl h.ne
  have hvt : v ∈ t.back := by
    have hvd : v ≠ t.here := by
      rintro rfl
      exact h.far (ht ▸ hv.1)
    have hvc : v ∈ t.cells := by
      rw [hcells]
      simp
    exact (List.mem_cons.mp hvc).resolve_left hvd
  obtain ⟨u, hu, rfl⟩ := List.mem_map.mp (hclosed v hvt)
  have hb := reopened h hI hu hv.1
  rw [seen_cons (List.ne_nil_of_mem hu)]
  rcases List.mem_append.mp hb with ho | hs
  · obtain ⟨x, hx, hxb⟩ := List.mem_map.mp ho
    rcases List.mem_cons.mp ((chosen_perm hmin).mem_iff.mp hx) with rfl | hx
    · exact absurd (hxb.symm.trans ht) h.ne
    · exact List.mem_append_left _ (hxb ▸ List.mem_map_of_mem hx)
  · exact List.mem_append_right _ (List.mem_cons_of_mem _ hs)

inductive Stage (aa : AstarArray) (b d : Cell) :
    List Slot → List Slot → List (NodePtr × ℤ × ℤ) → Bool → Prop
  | choosing {opn cls : List Slot} :
      Head (successors aa) (manhattan d) b d (exploration opn cls) → Stage aa b d opn cls [] false
  | visiting {opn cls : List Slot} {e : Exploration Cell} {k : ℕ} {x : Slot}
      {before ns : List (ℤ × ℤ)} {n : ℤ × ℤ} :
      Head (successors aa) (manhattan d) b d e →
      lastMin (Trail.total (manhattan d)) e.opn = some (k, x.2) → x.2.here ≠ d → x ∈ cls →
      neighbours x.2.here.1 x.2.here.2 = before ++ n :: ns →
      exploration opn cls = ⟨(before.filterMap (enterable aa)).foldl
        (discover (x.2 :: e.cls) x.2) (e.opn.eraseIdx k), x.2 :: e.cls⟩ →
      Stage aa b d opn cls ((x.1, n) :: ns.map (Prod.mk x.1)) false
  | found {opn cls : List Slot} {e : Exploration Cell} {k : ℕ} {t : Trail Cell} :
      Head (successors aa) (manhattan d) b d e →
      lastMin (Trail.total (manhattan d)) e.opn = some (k, t) → t.here = d →
      (∀ v ∈ t.back, v ∈ e.cls.map Trail.here) → exploration opn cls = close k t e →
      Stage aa b d opn cls [] true

structure Follows (aa : AstarArray) (b d : Cell) (base : ℕ) (opn cls : List Slot)
    (es : List SearchEvent) (pt : SearchPoint) : Prop where
  sim : Sim aa d base pt.locals pt.state opn cls
  removed : removals es = (cls.map fun x => aa.indexOf x.2.here).reverse
  stage : Stage aa b d opn cls pt.todo pt.found

theorem exploration_here (opn cls : List Slot) :
    ((exploration opn cls).opn ++ (exploration opn cls).cls).map Trail.here =
      (opn ++ cls).map fun x => x.2.here := by
  rw [exploration, ← List.map_append, List.map_map]
  rfl

theorem Sim.back_closed {l : SearchLocals} {s : AstarState} (h : Sim aa d base l s opn cls)
    {x : Slot} (hx : x ∈ opn ++ cls) :
    ∀ v ∈ x.2.back, v ∈ (exploration opn cls).cls.map Trail.here := by
  intro v hv
  rcases (h.rep x hx).parent with ⟨hnil, -⟩ | ⟨u, hu, hb, -⟩
  · rw [hnil] at hv
    cases hv
  · rw [exploration, List.map_map]
    exact closed_cells (fun y hy => h.rep y (List.mem_append_right _ hy)) u.2.cells hu rfl v
      (hb ▸ hv)

theorem Stage.nodup (h : Stage aa b d opn cls todo found)
    (ha : Avoids (successors aa) (manhattan d) b d) :
    ((opn ++ cls).map fun x => x.2.here).Nodup := by
  rw [← exploration_here]
  cases h with
  | choosing hhead =>
    rcases hhead.fresh ha with hstart | hnot
    · rw [hstart]
      exact List.nodup_singleton b
    · rcases hhead.inv.phase with hstart | ⟨hlast, -⟩
      · rw [hstart]
        exact List.nodup_singleton b
      · exact (nodup_iff hlast).mpr ⟨hnot, hhead.inv.distinct⟩
  | @visiting e k x before ns n hhead hmin hne hx hns he =>
    have hbefore : b ∉ before.filterMap (enterable aa) := by
      intro hb
      apply ha e k x.2 hhead.inv hhead.away hmin hne
      rw [successors, hns, List.filterMap_append]
      exact List.mem_append_left _ hb
    rw [he, nodup_iff (hhead.inv.getLast_close hmin)]
    exact ⟨discovers_fresh _ (hhead.close_fresh ha hmin) hbefore,
      discovers_nodup _ _ _ (hhead.inv.close_nodup hmin)⟩
  | found hhead hmin ht hclosed he =>
    rw [he, close, nodup_iff (hhead.inv.getLast_close hmin)]
    exact ⟨hhead.close_fresh ha hmin, hhead.inv.close_nodup hmin⟩

theorem visiting_nodup {e : Exploration Cell} {k : ℕ} {t : Trail Cell} {vs : List Cell}
    (h : Head (successors aa) (manhattan d) b d e)
    (hmin : lastMin (Trail.total (manhattan d)) e.opn = some (k, t))
    (he : exploration opn cls =
      ⟨vs.foldl (discover (t :: e.cls) t) (e.opn.eraseIdx k), t :: e.cls⟩) :
    ((exploration opn cls).opn.map Trail.here).Nodup := by
  rw [he]
  exact (List.nodup_append.mp (discovers_nodup _ _ _ (h.inv.close_nodup hmin))).1

theorem Stage.next {e : Exploration Cell} {k : ℕ} {x : Slot} {before ns : List (ℤ × ℤ)}
    (h : Head (successors aa) (manhattan d) b d e)
    (hmin : lastMin (Trail.total (manhattan d)) e.opn = some (k, x.2)) (hne : x.2.here ≠ d)
    (hx : x ∈ cls) (hns : neighbours x.2.here.1 x.2.here.2 = before ++ ns)
    (he : exploration opn cls = ⟨(before.filterMap (enterable aa)).foldl
      (discover (x.2 :: e.cls) x.2) (e.opn.eraseIdx k), x.2 :: e.cls⟩) :
    Stage aa b d opn cls (ns.map (Prod.mk x.1)) false := by
  cases ns with
  | nil =>
    rw [List.append_nil] at hns
    rw [← hns] at he
    refine .choosing ?_
    rw [he]
    exact h.expand_close (consistent_manhattan aa d) hmin hne
  | cons n ns => exact .visiting h hmin hne hx hns he

theorem Follows.remove {pt pt' : SearchPoint} {es : List SearchEvent} {ev : SearchEvent}
    (ha : aa.Loaded) (hd : aa.Inside d)
    (hsim : Sim aa d base pt.locals pt.state opn cls)
    (hrem : removals es = (cls.map fun x => aa.indexOf x.2.here).reverse)
    (hhead : Head (successors aa) (manhattan d) b d (exploration opn cls)) (htodo : pt.todo = [])
    (hfound : pt.found = false) (hs : SearchStep aa (aa.indexOf d) d.1 d.2 pt ev pt') :
    ∃ opn' cls', Follows aa b d base opn' cls' (es ++ [ev]) pt' := by
  cases hmin : lastMin (Trail.total (manhattan d)) (exploration opn cls).opn with
  | none =>
    have hzero : pt.locals.openNum = 0 := by
      rw [hsim.openNum, List.map_eq_nil_iff.mp (lastMin_eq_none.mp hmin), List.length_nil]
    simp only [SearchStep, searchNext, htodo, hzero, or_true, if_true] at hs
    cases hs
  | some kt =>
    obtain ⟨k, t⟩ := kt
    obtain ⟨hlt, hget⟩ := chosen_slot hmin
    have hnot : ¬ (pt.found = true ∨ pt.locals.openNum = 0) := by
      rw [hfound, hsim.openNum]
      exact not_or.mpr ⟨Bool.false_ne_true, by omega⟩
    have hrep := hsim.rep opn[k] (List.mem_append_left _ (List.getElem_mem hlt))
    have hclosed := hsim.moveToClosed hlt
    have hins : aa.Inside t.here := hget ▸ hrep.inside
    have hindex : (pt.state.nodes opn[k].1).index = aa.indexOf t.here := by rw [hrep.index, hget]
    have hrem' : removals (es ++ [.remove (aa.indexOf t.here)]) =
        ((opn[k] :: cls).map fun x => aa.indexOf x.2.here).reverse := by
      rw [removals, List.filterMap_append, ← removals, hrem, List.map_cons, List.reverse_cons, hget]
      rfl
    have hclose : exploration (opn.eraseIdx k) (opn[k] :: cls) =
        close k t (exploration opn cls) := by
      simp only [exploration, close, List.eraseIdx_map, List.map_cons, hget]
    simp only [SearchStep, searchNext, htodo, if_neg hnot,
      hsim.getMinFIndex_eq (total_pos hhead.inv) hmin, hsim.openAt k hlt, hindex] at hs
    by_cases hend : t.here = d
    · rw [if_pos (by rw [hend])] at hs
      cases hs
      refine ⟨_, _, hclosed, hrem', .found hhead hmin hend ?_ hclose⟩
      exact hget ▸ hsim.back_closed (List.mem_append_left _ (List.getElem_mem hlt))
    · have hne : ¬ aa.indexOf t.here = aa.indexOf d := fun he => hend (indexOf_injective hins hd he)
      rw [if_neg hne, hsIndex2coord_indexOf ha hins] at hs
      cases hs
      refine ⟨_, _, hclosed.setCoords _ _, hrem', ?_⟩
      have hx : opn[k].2 = t := hget
      refine @Stage.next aa b d _ _ (exploration opn cls) k opn[k] [] _ hhead (hx ▸ hmin)
        (hx ▸ hend) List.mem_cons_self (by rw [hx]; rfl) ?_
      rw [hclose, hx]
      rfl

theorem Follows.step {pt pt' : SearchPoint} {es : List SearchEvent} {ev : SearchEvent}
    (h : Follows aa b d base opn cls es pt) (ha : aa.Loaded) (hd : aa.Inside d)
    (hs : SearchStep aa (aa.indexOf d) d.1 d.2 pt ev pt') :
    ∃ opn' cls', Follows aa b d base opn' cls' (es ++ [ev]) pt' := by
  obtain ⟨hsim, hrem, hstage⟩ := h
  obtain ⟨todo, found, l, s⟩ := pt
  dsimp only at hsim hstage
  cases hstage with
  | choosing hhead => exact Follows.remove ha hd hsim hrem hhead rfl rfl hs
  | found =>
    simp only [SearchStep, searchNext, true_or, if_true] at hs
    cases hs
  | @visiting e k x before ns n hhead hmin hne hx hns he =>
    rw [List.append_cons] at hns
    have hrem' : removals (es ++ [.visit n]) =
        (cls.map fun x => aa.indexOf x.2.here).reverse := by
      rw [← hrem, removals, List.filterMap_append]
      exact List.append_nil _
    cases hv : visitNeighbour aa d.1 d.2 x.1 (l, s) n with
    | error f =>
      simp only [SearchStep, searchNext, hv] at hs
      cases hs
    | ok ls =>
      simp only [SearchStep, searchNext, hv] at hs
      cases hs
      cases hn : enterable aa n with
      | none =>
        rw [visitNeighbour_skip hn] at hv
        cases hv
        refine ⟨opn, cls, hsim, hrem', Stage.next hhead hmin hne hx hns ?_⟩
        rw [he, List.filterMap_append, List.filterMap_cons_none hn, List.filterMap_nil,
          List.append_nil]
      | some v =>
        rcases hsim.visitNeighbour hx (visiting_nodup hhead hmin he) hn with
          ⟨l', s', opn', hv', hsim', hopn⟩ | ⟨hv', -⟩
        · rw [hv'] at hv
          cases hv
          refine ⟨opn', cls, hsim', hrem', Stage.next hhead hmin hne hx hns ?_⟩
          have hcls : (exploration opn' cls).cls = (exploration opn cls).cls := rfl
          rw [List.filterMap_append, List.filterMap_cons_some hn, List.filterMap_nil,
            List.foldl_append]
          rw [he] at hopn hcls
          exact congrArg₂ Exploration.mk hopn hcls
        · rw [hv'] at hv
          cases hv

theorem Sim.indices {pt : SearchPoint} (h : Sim aa d base pt.locals pt.state opn cls) :
    pt.indices = (opn ++ cls).map fun x => aa.indexOf x.2.here := by
  have hopen : Cells.read pt.locals.openCloseNodes 0 pt.locals.openNum =
      opn.map fun x => some x.1 := by
    rw [h.openNum]
    refine List.ext_getElem (by simp) fun i hi _ => ?_
    rw [Cells.read_length] at hi
    rw [Cells.read_getElem, Nat.zero_add, h.openAt i hi, List.getElem_map]
  have hclosed : Cells.read pt.locals.openCloseNodes (pt.locals.closedCurrIndex + 1)
      pt.locals.closedNum = cls.map fun x => some x.1 := by
    rw [h.closedNum]
    refine List.ext_getElem (by simp) fun i hi _ => ?_
    rw [Cells.read_length] at hi
    rw [Cells.read_getElem, h.closedAt i hi, List.getElem_map]
  have hnodes : pt.nodes = (opn ++ cls).map Prod.fst := by
    rw [SearchPoint.nodes, hopen, hclosed, ← List.map_append, List.filterMap_map]
    exact congrFun List.filterMap_eq_map' (opn ++ cls)
  rw [SearchPoint.indices, hnodes, List.map_map]
  exact List.map_congr_left fun x hx => (h.rep x hx).index

theorem Follows.nodup_iff {pt : SearchPoint} {es : List SearchEvent}
    (h : Follows aa b d base opn cls es pt) :
    pt.indices.Nodup ↔ ((opn ++ cls).map fun x => x.2.here).Nodup := by
  have hindices : pt.indices = ((opn ++ cls).map fun x => x.2.here).map aa.indexOf := by
    rw [h.sim.indices, List.map_map]
    rfl
  have hinside : ∀ v ∈ (opn ++ cls).map fun x => x.2.here, aa.Inside v := by
    intro v hv
    obtain ⟨x, hx, rfl⟩ := List.mem_map.mp hv
    exact (h.sim.rep x hx).inside
  rw [hindices]
  constructor
  · exact List.Nodup.of_map _
  · exact List.Nodup.map_on fun u hu v hv he =>
      indexOf_injective (hinside u hu) (hinside v hv) he

theorem Follows.removals_nodup {pt : SearchPoint} {es : List SearchEvent}
    (h : Follows aa b d base opn cls es pt) (hnd : pt.indices.Nodup) : (removals es).Nodup := by
  rw [h.sim.indices, List.map_append] at hnd
  rw [h.removed, List.nodup_reverse]
  exact (List.nodup_append.mp hnd).2.1

theorem hsIndex2coord_lt (ha : aa.Loaded) {i : ℤ} {c : ℕ × ℕ}
    (h : hsIndex2coord i aa.width aa.height = .ok (some c)) :
    i < ((aa.width * aa.height : ℕ) : ℤ) := by
  by_contra hi
  rw [hsIndex2coord_outside ha hi] at h
  cases h

theorem SearchRun.follows {s : AstarState} {es : List SearchEvent} {pt : SearchPoint}
    (h : SearchRun aa (aa.indexOf b) (aa.indexOf d) s es pt) (ha : aa.Loaded) (hs : s.Ok)
    (hb : aa.Inside b) (hd : aa.Inside d) :
    ∃ opn cls, Follows aa b d s.cursor opn cls es pt := by
  obtain @⟨cx, cy, ex, ey, p, s', -, -, hbegin, hend, halloc, hrun⟩ := h
  rw [hsIndex2coord_indexOf ha hb] at hbegin
  rw [hsIndex2coord_indexOf ha hd] at hend
  obtain ⟨rfl, rfl⟩ : b.1 = cx ∧ b.2 = cy := Prod.mk.inj (Option.some.inj (Except.ok.inj hbegin))
  obtain ⟨rfl, rfl⟩ : d.1 = ex ∧ d.2 = ey := Prod.mk.inj (Option.some.inj (Except.ok.inj hend))
  have hsim := sim_start (d := d) hs (inited_of_alloc hs halloc) hb halloc
  refine hrun.history (P := fun es pt => ∃ opn cls, Follows aa b d s.cursor opn cls es pt)
    ⟨_, _, hsim, rfl, .choosing (head_start _ _ b d)⟩ ?_
  intro es pt e pt' hf hstep
  obtain ⟨opn, cls, hf⟩ := hf
  exact hf.step ha hd hstep

theorem distinct_of_not_reopens {s : AstarState} {es : List SearchEvent} {pt : SearchPoint}
    (h : SearchRun aa (aa.indexOf b) (aa.indexOf d) s es pt) (ha : aa.Loaded) (hs : s.Ok)
    (hb : aa.Inside b) (hd : aa.Inside d) (hnot : ¬ CellReopens aa b d) :
    pt.indices.Nodup ∧ (removals es).Nodup := by
  obtain ⟨opn, cls, hf⟩ := h.follows ha hs hb hd
  have hnd := hf.nodup_iff.mpr (hf.stage.nodup (avoids_of_not_reopens hnot))
  exact ⟨hnd, hf.removals_nodup hnd⟩

theorem hsAstarFindPath_run {s : AstarState} {fuel : ℕ} {res : AstarRes} {out : Outcome}
    (h : hsAstarFindPath fuel aa (aa.indexOf b) (aa.indexOf d) res s = .ok out) (ha : aa.Loaded)
    (hb : aa.Inside b) (hd : aa.Inside d) :
    ∃ es pt, SearchRun aa (aa.indexOf b) (aa.indexOf d) s es pt ∧ Ended pt out ∧
      (pt.found = true → Lists pt fuel res out) := by
  rw [hsAstarFindPath_eq ha hb hd] at h
  cases halloc : astarNodeAlloc s with
  | mk q s' =>
    rw [halloc] at h
    cases q with
    | none => cases h
    | some p =>
      obtain ⟨es, pt, hrun, hended⟩ := findLoop_run h
      exact ⟨es, pt, .intro (Int.natCast_nonneg _) (Int.natCast_nonneg _)
        (hsIndex2coord_indexOf ha hb) (hsIndex2coord_indexOf ha hd) halloc hrun, hended⟩

theorem exists_not_distinct {s : AstarState} {fuel : ℕ} {res : AstarRes} {out : Outcome}
    (h : hsAstarFindPath fuel aa (aa.indexOf b) (aa.indexOf d) res s = .ok out) (ha : aa.Loaded)
    (hs : s.Ok) (hb : aa.Inside b) (hd : aa.Inside d) (hre : CellReopens aa b d) :
    ∃ es pt, SearchRun aa (aa.indexOf b) (aa.indexOf d) s es pt ∧ ¬ pt.indices.Nodup := by
  obtain ⟨es, pt, hsearch, hended, -⟩ := hsAstarFindPath_run h ha hb hd
  refine ⟨es, pt, hsearch, ?_⟩
  obtain ⟨opn, cls, hf⟩ := hsearch.follows ha hs hb hd
  rw [hf.nodup_iff, ← exploration_here]
  have htodo := hended.todo
  have hlast := hended.last
  have hnum := hf.sim.openNum
  have hstage := hf.stage
  rw [htodo] at hstage
  generalize pt.found = found at hstage hlast
  cases hstage with
  | choosing hhead =>
    have hopn : opn = [] := by
      have hzero := hlast.resolve_left Bool.false_ne_true
      exact List.length_eq_zero_iff.mp (hnum.symm.trans hzero)
    exact not_nodup_exhausted hre hhead.inv (by rw [hopn]; rfl)
  | found hhead hmin ht hclosed he =>
    rw [he]
    exact not_nodup_found hre hhead.inv hmin ht hclosed

variable {data : ℕ → ℤ} {width height : ℕ}

/-- A neighbour of the begin cell is expanded, and leads back to it. -/
structure IndexReopens (data : ℕ → ℤ) (width height : ℕ) (beginIndex endIndex : ℤ) : Prop where
  beginInside : 0 ≤ beginIndex ∧ beginIndex < ((width * height : ℕ) : ℤ)
  endInside : 0 ≤ endIndex ∧ endIndex < ((width * height : ℕ) : ℤ)
  returns : IndexReturns data width height beginIndex
  ne : beginIndex ≠ endIndex
  far : ¬ (AdjacentIndex width height beginIndex endIndex ∧ data endIndex.toNat ≠ 1)

theorem indexOf_inside (hb : aa.Inside b) :
    0 ≤ aa.indexOf b ∧ aa.indexOf b < ((aa.width * aa.height : ℕ) : ℤ) :=
  ⟨Int.natCast_nonneg _, Int.ofNat_lt.mpr (indexOf_lt hb)⟩

theorem Holds.reopens_iff (h : Holds aa data width height) (hb : aa.Inside b) (hd : aa.Inside d) :
    IndexReopens data width height (aa.indexOf b) (aa.indexOf d) ↔ CellReopens aa b d := by
  have hfar : (AdjacentIndex width height (aa.indexOf b) (aa.indexOf d) ∧
      data (aa.indexOf d).toNat ≠ 1) ↔ d ∈ successors aa b := by
    rw [mem_successors, h.adjacent_iff hb hd, h.free_iff hd, and_comm]
  constructor
  · rintro ⟨-, -, hreturns, hne, hnot⟩
    exact ⟨(h.indexReturns_iff hb).mp hreturns, fun hbd => hne (hbd ▸ rfl), mt hfar.mpr hnot⟩
  · rintro ⟨hreturns, hne, hnot⟩
    refine ⟨?_, ?_, (h.indexReturns_iff hb).mpr hreturns,
      fun he => hne (indexOf_injective hb hd he), mt hfar.mp hnot⟩
    · rw [← h.width_eq, ← h.height_eq]
      exact indexOf_inside hb
    · rw [← h.width_eq, ← h.height_eq]
      exact indexOf_inside hd

/-- No two nodes hold the same cell and no cell is removed twice unless the begin cell is opened
again. In a call that returns it is just when a neighbour of it is expanded. -/
theorem hsAstarFindPath_distinct_iff (data : ℕ → ℤ) (width height : ℕ) (ta : AstarArray)
    (s₀ s : AstarState) (hload : (hsAstarLoadData (some data) width height ta s₀).1 = 0)
    (hs : Reached s) (beginIndex endIndex : ℤ) :
    (¬ IndexReopens data width height beginIndex endIndex →
      ∀ es pt, SearchRun (hsAstarLoadData (some data) width height ta s₀).2.1 beginIndex endIndex
        s es pt → pt.indices.Nodup ∧ (removals es).Nodup) ∧
    ∀ fuel res out, hsAstarFindPath fuel (hsAstarLoadData (some data) width height ta s₀).2.1
        beginIndex endIndex res s = .ok out →
      ((∀ es pt, SearchRun (hsAstarLoadData (some data) width height ta s₀).2.1 beginIndex
          endIndex s es pt → pt.indices.Nodup ∧ (removals es).Nodup) ↔
        ¬ IndexReopens data width height beginIndex endIndex) := by
  have h := holds_of_load hload
  generalize (hsAstarLoadData (some data) width height ta s₀).2.1 = aa at h
  have hdistinct : ¬ IndexReopens data width height beginIndex endIndex →
      ∀ es pt, SearchRun aa beginIndex endIndex s es pt →
        pt.indices.Nodup ∧ (removals es).Nodup := by
    intro hnot es pt hrun
    obtain ⟨hb, hd, hbegin, hend, -⟩ := id hrun
    obtain ⟨b, hbi, rfl⟩ := exists_cell h.loaded hb (hsIndex2coord_lt h.loaded hbegin)
    obtain ⟨d, hdi, rfl⟩ := exists_cell h.loaded hd (hsIndex2coord_lt h.loaded hend)
    exact distinct_of_not_reopens hrun h.loaded hs.ok hbi hdi (mt (h.reopens_iff hbi hdi).mpr hnot)
  refine ⟨hdistinct, fun fuel res out hcall => ⟨fun hall hre => ?_, hdistinct⟩⟩
  have hb := hre.beginInside
  have hd := hre.endInside
  rw [← h.width_eq, ← h.height_eq] at hb hd
  obtain ⟨b, hbi, rfl⟩ := exists_cell h.loaded hb.1 hb.2
  obtain ⟨d, hdi, rfl⟩ := exists_cell h.loaded hd.1 hd.2
  obtain ⟨es, pt, hrun, hnot⟩ := exists_not_distinct hcall h.loaded hs.ok hbi hdi
    ((h.reopens_iff hbi hdi).mp hre)
  exact hnot (hall es pt hrun).1

theorem hsAstarFindPath_distinct_corner :
    let load := hsAstarLoadData (some cornerWall) 2 2 .blank (.start fun _ => .zero)
    ∃ out, hsAstarFindPath 6 load.2.1 0 2 .blank load.2.2 = .ok out ∧ out.removed = 2 ∧
      ∀ es pt, SearchRun load.2.1 0 2 load.2.2 es pt →
        pt.indices.Nodup ∧ (removals es).Nodup := by
  intro load
  have hcall : (hsAstarFindPath 6 load.2.1 0 2 .blank load.2.2).map Outcome.removed = .ok 2 := by
    decide +kernel
  obtain ⟨out, ho, hout⟩ := exists_ok_of_map hcall
  refine ⟨out, ho, hout, ?_⟩
  refine (hsAstarFindPath_distinct_iff cornerWall 2 2 .blank (.start fun _ => .zero) load.2.2
    rfl (.load _ 2 2 _ (.start _)) 0 2).1 fun hre => hre.far ⟨?_, by decide⟩
  exact ⟨0, 0, 0, 1, by decide, by decide, by decide, by decide, by decide, rfl, rfl⟩

def deadEnd (i : ℕ) : ℤ := if i = 2 then 1 else 0

/-- Cells 0 and 1 of a row, then a wall. The search for cell 3 removes cell 0, cell 1, and cell 0
again. -/
theorem begin_removedTwice :
    let load := hsAstarLoadData (some deadEnd) 4 1 .blank (.start fun _ => .zero)
    load.1 = 0 ∧ ∃ es pt, SearchRun load.2.1 0 3 load.2.2 es pt ∧
      pt.indices = [0, 1, 0] ∧ removals es = [0, 1, 0] := by
  intro load
  refine ⟨rfl, ?_⟩
  have hbegin : hsIndex2coord 0 load.2.1.width load.2.1.height = .ok (some (0, 0)) := by decide
  have hend : hsIndex2coord 3 load.2.1.width load.2.1.height = .ok (some (3, 0)) := by decide
  obtain ⟨p, hp⟩ : ∃ p, (astarNodeAlloc load.2.2).1 = some p := ⟨_, rfl⟩
  obtain ⟨pt, hrun, hpt⟩ := @Run.of_observed _ _ (SearchStep load.2.1 3 3 0)
    (startPoint p 0 0 3 0 0 (astarNodeAlloc load.2.2).2) _ _ (fun _ _ _ => searchStep_of_stepTo)
    [.remove 0, .visit (0, -1), .visit (0, 1), .visit (-1, 0), .visit (1, 0),
      .remove 1, .visit (1, -1), .visit (1, 1), .visit (0, 0), .visit (2, 0), .remove 0]
    SearchPoint.indices [0, 1, 0] (by cases hp; decide +kernel)
  exact ⟨_, pt, .intro (by decide) (by decide) hbegin hend (Prod.ext hp rfl) hrun, hpt, rfl⟩

end HsCommon.Astar
