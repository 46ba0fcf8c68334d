import HsCommon.Astar.Reopening
import HsCommon.Astar.SharedArray

/-!
# The node that is removed next

`get_min_f_index` takes an `f` of 0 for "none seen yet", which goes wrong on a list
that holds one. In a search between two cells no node does: a node other than the
first has been reached by a step, and the first is as far from the end cell as the
begin cell. So the node removed is least, and as the estimate falls by one at most
along an edge, no later one is below it.
-/

namespace HsCommon.Astar
open LabelSetting Transition Exploration

variable {aa : AstarArray} {b d : Cell} {base : ℕ} {opn cls : List Slot} {pt pt' : SearchPoint}
  {es : List SearchEvent}

structure SearchPoint.AtHead (pt : SearchPoint) : Prop where
  todo : pt.todo = []
  found : pt.found = false
  nonempty : pt.locals.openNum ≠ 0

def SearchPoint.openF (pt : SearchPoint) (i : ℕ) : Option ℤ :=
  (pt.locals.openCloseNodes i).map fun p => (pt.state.nodes p).f

def SearchPoint.minIndex (pt : SearchPoint) : ℕ :=
  getMinFIndex pt.state.nodes pt.locals.openCloseNodes pt.locals.openNum

structure LeastF (pt : SearchPoint) (f : ℤ) : Prop where
  index_lt : pt.minIndex < pt.locals.openNum
  chosen : pt.openF pt.minIndex = some f
  least : ∀ i < pt.locals.openNum, ∃ f', pt.openF i = some f' ∧ 1 ≤ f' ∧ f ≤ f'

theorem Sim.openF (h : Sim aa d base pt.locals pt.state opn cls) {i : ℕ} (hi : i < opn.length) :
    pt.openF i = some ((opn[i].2.total (manhattan d) : ℕ) : ℤ) := by
  have hrep := h.rep opn[i] (List.mem_append_left _ (List.getElem_mem hi))
  rw [SearchPoint.openF, h.openAt i hi, Option.map_some, hrep.f]

theorem manhattan_pos {c : Cell} (h : c ≠ d) : 0 < manhattan d c := by
  by_contra hzero
  apply h
  unfold manhattan at hzero
  exact Prod.ext (by omega) (by omega)

theorem total_pos_of_ne (hI : Inv (successors aa) b (exploration opn cls)) (hbd : b ≠ d) {x : Slot}
    (hx : x ∈ opn) : 0 < x.2.total (manhattan d) := by
  rcases total_pos (d := d) hI with hpos | hone
  · exact hpos x hx
  · rcases hI.phase with he | ⟨-, hback⟩
    · have hmem : x.2 ∈ (exploration opn cls).opn := List.mem_map_of_mem hx
      rw [he] at hmem
      rw [List.mem_singleton.mp hmem]
      exact Nat.lt_of_lt_of_le (manhattan_pos hbd) (Nat.le_add_left _ _)
    · have hne := hback x.2 (List.mem_append_left _ (List.mem_map_of_mem hx))
      exact Nat.add_pos_left (List.length_pos_iff.mpr hne) _

theorem Follows.head (h : Follows aa b d base opn cls es pt) (hhead : pt.AtHead) :
    Head (successors aa) (manhattan d) b d (exploration opn cls) := by
  have hstage := h.stage
  rw [hhead.todo, hhead.found] at hstage
  cases hstage with
  | choosing hh => exact hh

theorem Follows.leastF (h : Follows aa b d base opn cls es pt) (hbd : b ≠ d)
    (hhead : pt.AtHead) : ∃ f, LeastF pt f := by
  have hI := (h.head hhead).inv
  have hnum := h.sim.openNum
  cases hmin : lastMin (Trail.total (manhattan d)) (exploration opn cls).opn with
  | none =>
    have hnil := List.map_eq_nil_iff.mp (lastMin_eq_none.mp hmin)
    exact absurd (by rw [hnum, hnil, List.length_nil]) hhead.nonempty
  | some kt =>
    obtain ⟨k, t⟩ := kt
    obtain ⟨hlt, hget⟩ := chosen_slot hmin
    have hindex : pt.minIndex = k := h.sim.getMinFIndex_eq (total_pos hI) hmin
    refine ⟨((t.total (manhattan d) : ℕ) : ℤ), ?_, ?_, ?_⟩
    · rw [hindex, hnum]
      exact hlt
    · rw [hindex, h.sim.openF hlt, hget]
    · intro i hi
      rw [hnum] at hi
      have hin := List.getElem_mem hi
      have hpos := total_pos_of_ne hI hbd hin
      have hle := (lastMin_spec hmin).2.1 opn[i].2 (List.mem_map_of_mem hin)
      exact ⟨_, h.sim.openF hi, by omega, by omega⟩

/-- No open node is below `m`, and none whose neighbours are being visited. -/
structure Floor (m : ℤ) (pt : SearchPoint) : Prop where
  openNode : ∀ i p, i < pt.locals.openNum → pt.locals.openCloseNodes i = some p →
    m ≤ (pt.state.nodes p).f
  visiting : ∀ x ∈ pt.todo, m ≤ (pt.state.nodes x.1).f

theorem floor_of_slots {m : ℤ} (h : Sim aa d base pt.locals pt.state opn cls)
    (hopn : ∀ x ∈ opn, m ≤ ((x.2.total (manhattan d) : ℕ) : ℤ)) :
    ∀ i p, i < pt.locals.openNum → pt.locals.openCloseNodes i = some p →
      m ≤ (pt.state.nodes p).f := by
  intro i p hi hp
  rw [h.openNum] at hi
  rw [h.openAt i hi] at hp
  obtain rfl := Option.some.inj hp
  rw [(h.rep opn[i] (List.mem_append_left _ (List.getElem_mem hi))).f]
  exact hopn _ (List.getElem_mem hi)

theorem Floor.slots {m : ℤ} (h : Floor m pt) (hsim : Sim aa d base pt.locals pt.state opn cls) :
    ∀ x ∈ opn, m ≤ ((x.2.total (manhattan d) : ℕ) : ℤ) := by
  intro x hx
  obtain ⟨i, hi, rfl⟩ := List.mem_iff_getElem.mp hx
  rw [← (hsim.rep _ (List.mem_append_left _ hx)).f]
  exact h.openNode i _ (by rw [hsim.openNum]; exact hi) (hsim.openAt i hi)

theorem LeastF.floor {f : ℤ} (h : LeastF pt f) (hhead : pt.AtHead) : Floor f pt := by
  constructor
  · intro i p hi hp
    obtain ⟨f', hf', -, hle⟩ := h.least i hi
    rw [SearchPoint.openF, hp] at hf'
    rwa [← Option.some.inj hf'] at hle
  · rw [hhead.todo]
    intro x hx
    cases hx

theorem moveToClosed_open {l : SearchLocals} {k : ℕ} (hk : k < l.openNum)
    (hapart : l.openNum ≤ l.closedCurrIndex) (hcurr : l.closedCurrIndex < 65536) {i : ℕ}
    {p : NodePtr} (hi : i < (moveToClosed l k).openNum)
    (hp : (moveToClosed l k).openCloseNodes i = some p) :
    ∃ j, j < l.openNum ∧ l.openCloseNodes j = some p := by
  have hnum : (moveToClosed l k).openNum = l.openNum - 1 := u16Sub_eq (by omega) (by omega)
  rw [hnum] at hi
  rw [moveToClosed_nodes l hk hapart, if_neg (by omega), if_neg (by omega)] at hp
  split_ifs at hp with hmoved
  · exact ⟨i + 1, hmoved.2, hp⟩
  · exact ⟨i, by omega, hp⟩

theorem Floor.remove {m : ℤ} {endIndex : ℤ} {ex ey : ℕ} {e : SearchEvent} (h : Floor m pt)
    (hapart : pt.locals.openNum ≤ pt.locals.closedCurrIndex)
    (hcurr : pt.locals.closedCurrIndex < 65536) (htodo : pt.todo = [])
    (hs : SearchStep aa endIndex ex ey pt e pt') : Floor m pt' := by
  obtain ⟨hzero, hstate, ⟨cx, cy, hlocals⟩, cur, hcur, hall⟩ := hs.of_remove htodo
  have hk := getMinFIndex_lt pt.state.nodes pt.locals.openCloseNodes (Nat.pos_of_ne_zero hzero)
  constructor
  · rw [hstate, hlocals]
    intro i p hi hp
    obtain ⟨j, hj, hjp⟩ := moveToClosed_open hk hapart hcurr hi hp
    exact h.openNode j p hj hjp
  · intro x hx
    rw [hstate, hall x hx]
    exact h.openNode _ cur hk hcur

theorem total_le_extend {t : Trail Cell} {v : Cell} (hv : v ∈ successors aa t.here) :
    t.total (manhattan d) ≤ (t.extend v).total (manhattan d) := by
  have hle := consistent_manhattan aa d t.here v 1 ⟨hv, rfl⟩
  rw [Trail.total, Trail.total, Trail.extend_cost, Trail.extend_here]
  omega

theorem Floor.visit {m : ℤ} {e : SearchEvent} {x : Slot} {n : ℤ × ℤ}
    {todo : List (NodePtr × ℤ × ℤ)} (h : Floor m pt)
    (hsim : Sim aa d base pt.locals pt.state opn cls) (hx : x ∈ cls)
    (hdis : ((exploration opn cls).opn.map Trail.here).Nodup)
    (hn : n ∈ neighbours x.2.here.1 x.2.here.2) (htodo : pt.todo = (x.1, n) :: todo)
    (hcur : ∀ y ∈ todo, y.1 = x.1) (hs : SearchStep aa (aa.indexOf d) d.1 d.2 pt e pt') :
    Floor m pt' := by
  have hslots := h.slots hsim
  have hxfloor : m ≤ ((x.2.total (manhattan d) : ℕ) : ℤ) := by
    rw [← (hsim.rep x (List.mem_append_right _ hx)).f]
    exact h.visiting (x.1, n) (by rw [htodo]; exact List.mem_cons_self)
  obtain ⟨hv, htodo'⟩ := hs.of_visit htodo
  cases hent : enterable aa n with
  | none =>
    rw [visitNeighbour_skip hent] at hv
    obtain ⟨hl, hst⟩ := Prod.mk.inj (Except.ok.inj hv)
    refine ⟨?_, ?_⟩
    · rw [← hl, ← hst]
      exact h.openNode
    · intro y hy
      rw [htodo'] at hy
      rw [← hst]
      exact h.visiting y (by rw [htodo]; exact List.mem_cons_of_mem _ hy)
  | some v =>
    have hsucc : v ∈ successors aa x.2.here := List.mem_filterMap.mpr ⟨n, hn, hent⟩
    rcases hsim.visitNeighbour hx hdis hent with ⟨l', s', opn', hv', hsim', hopn⟩ | ⟨hv', -⟩
    · rw [hv'] at hv
      obtain ⟨rfl, rfl⟩ := Prod.mk.inj (Except.ok.inj hv)
      constructor
      · apply floor_of_slots hsim'
        intro y hy
        have hmem : y.2 ∈ (exploration opn' cls).opn := List.mem_map_of_mem hy
        rw [hopn] at hmem
        rcases discover_origin hmem with hold | hnew
        · obtain ⟨z, hz, hzy⟩ := List.mem_map.mp hold
          rw [← hzy]
          exact hslots z hz
        · rw [hnew]
          exact hxfloor.trans (Int.ofNat_le.mpr (total_le_extend hsucc))
      · intro y hy
        rw [htodo'] at hy
        rw [hcur y hy]
        exact hxfloor.trans (hsim'.rep x (List.mem_append_right _ hx)).f.ge
    · rw [hv'] at hv
      cases hv

theorem Floor.step {m : ℤ} {e : SearchEvent} (h : Floor m pt)
    (hf : Follows aa b d base opn cls es pt)
    (hs : SearchStep aa (aa.indexOf d) d.1 d.2 pt e pt') : Floor m pt' := by
  have hsim := hf.sim
  have hfits := hsim.fits
  have hcurr := hsim.curr
  have hnum := hsim.openNum
  have hstage := hf.stage
  generalize htodo : pt.todo = todo at hstage
  generalize pt.found = found at hstage
  cases hstage with
  | choosing => exact h.remove (by omega) (by omega) htodo hs
  | found => exact h.remove (by omega) (by omega) htodo hs
  | @visiting e' k x before ns n hhead hmin hne hx hns he =>
    have hn : n ∈ neighbours x.2.here.1 x.2.here.2 := by
      rw [hns]
      exact List.mem_append_right _ List.mem_cons_self
    apply h.visit hsim hx (visiting_nodup hhead hmin he) hn htodo _ hs
    intro y hy
    obtain ⟨n', -, rfl⟩ := List.mem_map.mp hy
    rfl

theorem SearchStep.unique {endIndex : ℤ} {ex ey : ℕ} {e : SearchEvent} {pt'' : SearchPoint}
    (h : SearchStep aa endIndex ex ey pt e pt') (h' : SearchStep aa endIndex ex ey pt e pt'') :
    pt' = pt'' := by
  have he := h.symm.trans h'
  exact (Prod.mk.inj (Option.some.inj (Except.ok.inj he))).2

theorem SearchRun.continues {s : AstarState} {beginIndex : ℤ} {es' : List SearchEvent}
    (h : SearchRun aa beginIndex (aa.indexOf d) s es pt)
    (h' : SearchRun aa beginIndex (aa.indexOf d) s (es ++ es') pt') (ha : aa.Loaded)
    (hd : aa.Inside d) : Run (SearchStep aa (aa.indexOf d) d.1 d.2) pt es' pt' := by
  obtain @⟨cx, cy, ex, ey, p, s₁, -, -, hbegin, hend, halloc, hrun⟩ := h
  obtain @⟨cx', cy', ex', ey', p', s₁', -, -, hbegin', hend', halloc', hrun'⟩ := h'
  rw [hsIndex2coord_indexOf ha hd] at hend hend'
  obtain ⟨rfl, rfl⟩ : d.1 = ex ∧ d.2 = ey := Prod.mk.inj (Option.some.inj (Except.ok.inj hend))
  obtain ⟨rfl, rfl⟩ : d.1 = ex' ∧ d.2 = ey' := Prod.mk.inj (Option.some.inj (Except.ok.inj hend'))
  obtain ⟨rfl, rfl⟩ : cx = cx' ∧ cy = cy' :=
    Prod.mk.inj (Option.some.inj (Except.ok.inj (hbegin.symm.trans hbegin')))
  obtain ⟨hp, rfl⟩ := Prod.mk.inj (halloc.symm.trans halloc')
  obtain rfl := Option.some.inj hp
  obtain ⟨m, hm, hrest⟩ := hrun'.exists_middle
  obtain rfl := hm.unique (fun _ _ _ _ hs hs' => hs.unique hs') hrun
  exact hrest

/-- At the head of the loop the node chosen is a least one of the open list, and no node chosen
later in the search is below it. -/
theorem search_removes_least {beginIndex endIndex : ℤ} {s : AstarState} (ha : aa.Loaded)
    (hs : Reached s) (hne : beginIndex ≠ endIndex)
    (h : SearchRun aa beginIndex endIndex s es pt) (hhead : pt.AtHead) :
    ∃ f, LeastF pt f ∧ ∀ es' pt' f', SearchRun aa beginIndex endIndex s (es ++ es') pt' →
      pt'.AtHead → LeastF pt' f' → f ≤ f' := by
  have hsearch := h
  obtain ⟨hb₀, hd₀, hbegin, hend, -, -⟩ := h
  obtain ⟨b, hb, rfl⟩ := exists_cell ha hb₀ (hsIndex2coord_lt ha hbegin)
  obtain ⟨d, hd, rfl⟩ := exists_cell ha hd₀ (hsIndex2coord_lt ha hend)
  have hbd : b ≠ d := fun he => hne (congrArg aa.indexOf he)
  obtain ⟨opn, cls, hf⟩ := hsearch.follows ha hs.ok hb hd
  obtain ⟨f, hleast⟩ := hf.leastF hbd hhead
  refine ⟨f, hleast, ?_⟩
  intro es' pt' f' hlater hhead' hleast'
  have hrun := hsearch.continues hlater ha hd
  have hfloor : Floor f pt' := by
    refine (hrun.history (P := fun es' pt' =>
      (∃ opn cls, Follows aa b d s.cursor opn cls (es ++ es') pt') ∧ Floor f pt') ?_ ?_).2
    · rw [List.append_nil]
      exact ⟨⟨opn, cls, hf⟩, hleast.floor hhead⟩
    · rintro es' pt₁ e pt₂ ⟨⟨opn, cls, hf₁⟩, hfl⟩ hstep
      rw [← List.append_assoc]
      exact ⟨hf₁.step ha hd hstep, hfl.step hf₁ hstep⟩
  have hchosen := hleast'.chosen
  rw [SearchPoint.openF, Option.map_eq_some_iff] at hchosen
  obtain ⟨p, hp, hpf⟩ := hchosen
  rw [← hpf]
  exact hfloor.openNode _ p hleast'.index_lt hp

theorem search_removes_least_secondHead :
    let load := hsAstarLoadData (some fun _ => 0) 2 2 .blank (.start fun _ => .zero)
    ∃ es pt, SearchRun load.2.1 0 3 load.2.2 es pt ∧ removals es = [0] ∧ pt.AtHead ∧
      ∃ f, LeastF pt f ∧ ∀ es' pt' f', SearchRun load.2.1 0 3 load.2.2 (es ++ es') pt' →
        pt'.AtHead → LeastF pt' f' → f ≤ f' := by
  intro load
  have hbegin : hsIndex2coord 0 load.2.1.width load.2.1.height = .ok (some (0, 0)) := by decide
  have hend : hsIndex2coord 3 load.2.1.width load.2.1.height = .ok (some (1, 1)) := by decide
  obtain ⟨p, hp⟩ : ∃ p, (astarNodeAlloc load.2.2).1 = some p := ⟨_, rfl⟩
  obtain ⟨pt, hsteps, hpt⟩ := @Run.of_observed _ _ (SearchStep load.2.1 3 1 1)
    (startPoint p 0 0 1 1 0 (astarNodeAlloc load.2.2).2) _ _ (fun _ _ _ => searchStep_of_stepTo)
    [.remove 0, .visit (0, -1), .visit (0, 1), .visit (-1, 0), .visit (1, 0)]
    (fun pt => (pt.todo.length, pt.found, pt.locals.openNum)) (0, false, 2)
    (by cases hp; decide +kernel)
  obtain ⟨htodo, hpt⟩ := Prod.mk.inj hpt
  obtain ⟨hfound, hopen⟩ := Prod.mk.inj hpt
  have hhead : pt.AtHead := ⟨List.length_eq_zero_iff.mp htodo, hfound, by omega⟩
  have hrun : SearchRun load.2.1 0 3 load.2.2 _ pt :=
    .intro (by decide) (by decide) hbegin hend (Prod.ext hp rfl) hsteps
  have ha : load.2.1.Loaded := (hsAstarLoadData_loaded (s := .start fun _ => .zero) rfl).1
  exact ⟨_, pt, hrun, rfl, hhead,
    search_removes_least ha (.load _ 2 2 _ (.start _)) (by decide) hrun hhead⟩

end HsCommon.Astar
