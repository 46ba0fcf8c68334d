import HsCommon.Astar.ParentLinks

/-!
# The loop follows the exploration

Visiting the neighbours of the node just closed is expanding its trail, the loop
is the rounds of the exploration, and the list written at the end is the trail of
the goal. The loop stops in one of three ways: it returns, the allocator has run
out, or its budget is too small for the grid.
-/

namespace HsCommon.Astar
open LabelSetting Exploration

variable {aa : AstarArray} {d : Cell} {base : ℕ} {l : SearchLocals} {s : AstarState}
  {opn cls : List Slot}

theorem Sim.improveOpen_eq (h : Sim aa d base l s opn cls) {p : NodePtr} {cur : Trail Cell}
    (hcur : (p, cur) ∈ cls) {x : Slot} (hx : x ∈ opn) (v : Cell) :
    Astar.improveOpen d.1 d.2 p x.1 v.1 v.2 s =
      if x.2.cost > cur.cost + 1 then
        setNode s x.1 { s.nodes x.1 with
          parent := some p
          g := (cur.cost + 1 : ℕ)
          h := (manhattan d v : ℕ)
          f := (cur.cost + 1 : ℕ) + (manhattan d v : ℕ) }
      else s := by
  have hq := h.rep x (List.mem_append_left cls hx)
  have hprep := h.rep (p, cur) (List.mem_append_right _ hcur)
  simp only [Astar.improveOpen, calcGvalue, hprep.g, hq.g, calcHvalue_eq]
  have hiff : ((x.2.cost : ℕ) : ℤ) > (cur.cost : ℕ) + 1 ↔ x.2.cost > cur.cost + 1 := by omega
  simp only [hiff, Nat.cast_add, Nat.cast_one]

theorem Placed.of_sameNodes (h : Placed l opn cls) {opn' : List Slot}
    (hfst : opn'.map Prod.fst = opn.map Prod.fst) : Placed l opn' cls := by
  have hlen : opn'.length = opn.length := by
    rw [← List.length_map (f := Prod.fst), hfst, List.length_map]
  refine ⟨h.openNum.trans hlen.symm, h.closedNum, h.curr, ?_, h.closedAt, ?_⟩
  · intro i hi
    have hget : (opn'.map Prod.fst)[i]? = (opn.map Prod.fst)[i]? := by rw [hfst]
    rw [List.getElem?_map, List.getElem?_map, List.getElem?_eq_getElem hi,
      List.getElem?_eq_getElem (hlen ▸ hi)] at hget
    rw [h.openAt i (hlen ▸ hi)]
    exact hget.symm
  · intro i hi hle
    exact h.gap i (hlen ▸ hi) hle

theorem Held.setNode (h : Held aa d s opn cls) {x : Slot} (hx : x ∈ opn) {n : AstarNode}
    {g : Slot → Trail Cell} (hg : ∀ y ∈ opn, y ≠ x → g y = y.2)
    (hrep : NodeRep aa d (setNode s x.1 n).nodes cls (x.1, g x)) :
    Held aa d (Astar.setNode s x.1 n) (opn.map fun y => (y.1, g y)) cls := by
  have hfst : (opn.map fun y => (y.1, g y)).map Prod.fst = opn.map Prod.fst := by
    rw [List.map_map]
    rfl
  have hkeep : ∀ y ∈ opn ++ cls, y ≠ x →
      NodeRep aa d (Astar.setNode s x.1 n).nodes cls y := by
    intro y hy hne
    have hptr : y.1 ≠ x.1 := fun heq =>
      hne (List.inj_on_of_nodup_map h.nodup hy (List.mem_append_left _ hx) heq)
    exact (h.rep y hy).congr (Function.update_of_ne hptr _ _) fun u hu => hu
  constructor
  · intro z hz
    rcases List.mem_append.mp hz with hz | hz
    · obtain ⟨y, hy, rfl⟩ := List.mem_map.mp hz
      by_cases hyx : y = x
      · rw [hyx]
        exact hrep
      · rw [hg y hy hyx]
        exact hkeep y (List.mem_append_left _ hy) hyx
    · refine hkeep z (List.mem_append_right _ hz) ?_
      rintro rfl
      have hd := (List.nodup_append.mp (List.map_append ▸ h.nodup)).2.2
      exact hd _ (List.mem_map_of_mem hx) _ (List.mem_map_of_mem hz) rfl
  · intro z hz
    rcases List.mem_append.mp hz with hz | hz
    · obtain ⟨y, hy, rfl⟩ := List.mem_map.mp hz
      exact setNode_issued (h.issued y (List.mem_append_left _ hy))
    · exact setNode_issued (h.issued z (List.mem_append_right _ hz))
  · rw [List.map_append, hfst, ← List.map_append]
    exact h.nodup

theorem improve_of_ne (hdis : ((exploration opn cls).opn.map Trail.here).Nodup) {x y : Slot}
    (hx : x ∈ opn) (hy : y ∈ opn) (hne : y ≠ x) (cur : Trail Cell) :
    improve cur x.2.here y.2 = y.2 := by
  rw [exploration, List.map_map] at hdis
  rw [improve, if_neg fun hc => hne (List.inj_on_of_nodup_map hdis hy hx hc.1)]

theorem Sim.improveOpen (h : Sim aa d base l s opn cls) {p : NodePtr} {cur : Trail Cell}
    (hcur : (p, cur) ∈ cls) {v : Cell} (hv : aa.Inside v)
    (hdis : ((exploration opn cls).opn.map Trail.here).Nodup) {pos : ℕ} (hpos : pos < opn.length)
    (hhere : opn[pos].2.here = v) :
    Sim aa d base l (Astar.improveOpen d.1 d.2 p opn[pos].1 v.1 v.2 s)
      (opn.map fun x => (x.1, improve cur v x.2)) cls := by
  have hmem : opn[pos] ∈ opn := List.getElem_mem hpos
  have hq := h.rep _ (List.mem_append_left cls hmem)
  have hother : ∀ y ∈ opn, y ≠ opn[pos] → improve cur v y.2 = y.2 := fun y hy hne =>
    hhere ▸ improve_of_ne hdis hmem hy hne cur
  rw [h.improveOpen_eq hcur hmem v]
  split_ifs with hc
  · have hfst : (opn.map fun x => (x.1, improve cur v x.2)).map Prod.fst = opn.map Prod.fst := by
      rw [List.map_map]
      rfl
    refine ⟨h.toPlaced.of_sameNodes hfst, h.toHeld.setNode hmem hother ?_, setNode_ok h.ok,
      h.inited, ?_, h.room⟩
    · rw [improve, if_pos ⟨hhere, hc⟩]
      simp only [setNode]
      refine nodeRep_extend hcur hv ?_ ?_ ?_ ?_ <;> rw [Function.update_self]
      · rw [hq.index, hhere]
      · rw [Trail.extend_cost]
    · rw [List.length_map]
      exact h.cursor
  · -- the way through `cur` is no shorter, so no trail changes either
    have hsame : ∀ y ∈ opn, (y.1, improve cur v y.2) = y := by
      intro y hy
      by_cases hyp : y = opn[pos]
      · rw [hyp, improve, if_neg fun hless => hc hless.2]
      · rw [hother y hy hyp]
    rw [List.map_congr_left hsame, List.map_id']
    exact h

theorem Sim.visitNeighbour (h : Sim aa d base l s opn cls) {p : NodePtr} {cur : Trail Cell}
    (hcur : (p, cur) ∈ cls)
    (hdis : ((exploration opn cls).opn.map Trail.here).Nodup) {n : ℤ × ℤ} {v : Cell}
    (hn : enterable aa n = some v) :
    (∃ l' s' opn', Astar.visitNeighbour aa d.1 d.2 p (l, s) n = .ok (l', s') ∧
      Sim aa d base l' s' opn' cls ∧ (exploration opn' cls).opn =
        discover (exploration opn cls).cls cur (exploration opn cls).opn v) ∨
    (Astar.visitNeighbour aa d.1 d.2 p (l, s) n = .error .nullPointer ∧
      4095 < base + ((discover (exploration opn cls).cls cur (exploration opn cls).opn v).length +
        cls.length)) := by
  obtain ⟨hfree, rfl⟩ := enterable_eq_some.mp hn
  have hv := hfree.1
  have hblocked : ¬ isBlocked aa v.1 v.2 = 0 := by
    rw [isBlocked_natCast, if_pos hfree]
    decide
  simp only [Astar.visitNeighbour, if_neg hblocked, Int.toNat_natCast, h.isInClosed_iff hv]
  by_cases hseen : v ∈ seen (exploration opn cls).cls
  · left
    rw [if_pos hseen]
    refine ⟨l, s, opn, rfl, h, ?_⟩
    rw [discover, if_pos hseen]
  · rw [if_neg hseen]
    have hspec := h.isInOpen_spec hv
    cases hopen : isInOpen s.nodes l.openCloseNodes l.openNum aa.width aa.height v.1 v.2 with
    | none =>
      rw [hopen] at hspec
      have hdisc : discover (exploration opn cls).cls cur (exploration opn cls).opn v =
          (exploration opn cls).opn ++ [cur.extend v] := by
        rw [discover, if_neg hseen, if_neg hspec]
      rcases h.pushOpen hcur hv with ⟨hfull, he⟩ | ⟨l', s', q, he, hs'⟩
      · right
        refine ⟨he, ?_⟩
        have hc := h.cursor
        rw [hdisc]
        simp only [exploration, List.length_append, List.length_map, List.length_singleton]
        omega
      · left
        refine ⟨l', s', _, he, hs', ?_⟩
        rw [hdisc]
        simp [exploration]
    | some pos =>
      rw [hopen] at hspec
      obtain ⟨hpos, hhere⟩ := hspec
      left
      refine ⟨l, _, _, by simp only [h.openAt pos hpos],
        h.improveOpen hcur hv hdis hpos hhere, ?_⟩
      have hmem : v ∈ (exploration opn cls).opn.map Trail.here := by
        rw [← hhere]
        exact List.mem_map_of_mem (List.mem_map_of_mem (List.getElem_mem hpos))
      rw [discover, if_neg hseen, if_pos hmem]
      simp [exploration]

theorem visitNeighbour_skip {n : ℤ × ℤ} (hn : enterable aa n = none) (ex ey : ℕ) (cur : NodePtr)
    (ls : SearchLocals × AstarState) : Astar.visitNeighbour aa ex ey cur ls n = .ok ls := by
  have hblocked : isBlocked aa n.1 n.2 = 0 := by
    by_contra hb
    simp [enterable, hb] at hn
  simp only [Astar.visitNeighbour, if_pos hblocked]

theorem Sim.visitNeighbours (h : Sim aa d base l s opn cls) {p : NodePtr} {cur : Trail Cell}
    (hcur : (p, cur) ∈ cls)
    (hdis : ((exploration opn cls).opn.map Trail.here ++ seen (exploration opn cls).cls).Nodup)
    (ns : List (ℤ × ℤ)) :
    (∃ l' s' opn', Astar.visitNeighbours aa d.1 d.2 p ns (l, s) = .ok (l', s') ∧
      Sim aa d base l' s' opn' cls ∧ (exploration opn' cls).opn =
        (ns.filterMap (enterable aa)).foldl (discover (exploration opn cls).cls cur)
          (exploration opn cls).opn) ∨
    (Astar.visitNeighbours aa d.1 d.2 p ns (l, s) = .error .nullPointer ∧
      4095 < base + (((ns.filterMap (enterable aa)).foldl
        (discover (exploration opn cls).cls cur) (exploration opn cls).opn).length +
          cls.length)) := by
  induction ns generalizing l s opn with
  | nil => exact Or.inl ⟨l, s, opn, rfl, h, rfl⟩
  | cons n ns ih =>
    cases hn : enterable aa n with
    | none =>
      simp only [Astar.visitNeighbours, visitNeighbour_skip hn, List.filterMap_cons, hn]
      exact ih h hdis
    | some v =>
      simp only [Astar.visitNeighbours, List.filterMap_cons, hn, List.foldl_cons]
      rcases h.visitNeighbour hcur (List.nodup_append.mp hdis).1 hn with
        ⟨l', s', opn', he, hs', hopn⟩ | ⟨he, hlt⟩
      · rw [he, ← hopn]
        exact ih hs' (by rw [hopn]; exact discover_nodup hdis)
      · right
        rw [he]
        refine ⟨rfl, hlt.trans_le ?_⟩
        have hl := discovers_length (exploration opn cls).cls cur (ns.filterMap (enterable aa))
          (discover (exploration opn cls).cls cur (exploration opn cls).opn v)
        omega

theorem getResultList_spec {nodes : NodePtr → AstarNode}
    (hrep : ∀ x ∈ cls, NodeRep aa d nodes cls x) (cells : List Cell) {x : Slot} (hx : x ∈ cls)
    (hcells : x.2.cells = cells) {links i : ℕ} (lst : ℕ → ℤ) (hl : cells.length ≤ links)
    (hi : i + cells.length ≤ 4096) :
    ∃ lst', getResultList nodes links (some x.1) i lst = .ok ⟨lst', i + cells.length⟩ ∧
      Cells.read lst' i cells.length = cells.map aa.indexOf ∧ ∀ j < i, lst' j = lst j := by
  obtain ⟨xs, q, hxs, hmap, hlinks⟩ := exists_parentLinks hrep cells hx hcells
  have hlen : (xs.map Prod.fst).length = cells.length := by
    rw [← hmap, List.length_map, List.length_map]
  have hindex : ((xs.map Prod.fst).map fun r => (nodes r).index) = cells.map aa.indexOf := by
    rw [← hmap, List.map_map, List.map_map]
    apply List.map_congr_left
    intro y hy
    exact (hrep y (hxs y hy)).index
  have hrun := hlinks.getResultList_eq lst (hlen.trans_le hl) (by rw [hlen]; exact hi)
  rw [hindex, hlen] at hrun
  refine ⟨_, hrun, ?_, fun j hj => Cells.write_of_lt lst _ hj⟩
  have hread := Cells.read_write lst i (cells.map aa.indexOf)
  rwa [List.length_map] at hread

theorem closed_cells {nodes : NodePtr → AstarNode}
    (hrep : ∀ x ∈ cls, NodeRep aa d nodes cls x) (cells : List Cell) {x : Slot} (hx : x ∈ cls)
    (hcells : x.2.cells = cells) : ∀ c ∈ cells, c ∈ cls.map fun y => y.2.here := by
  obtain ⟨xs, q, hxs, hmap, -⟩ := exists_parentLinks hrep cells hx hcells
  intro c hc
  rw [← hmap] at hc
  obtain ⟨y, hy, rfl⟩ := List.mem_map.mp hc
  exact List.mem_map.mpr ⟨y, hxs y hy, rfl⟩

/-- What the call returns when the exploration has come to `e`: nothing is open, or the trail to
close next is at the end cell. -/
inductive Returned (aa : AstarArray) (d : Cell) (res : AstarRes) (e : Exploration Cell)
    (out : Outcome) : Prop where
  | noPath : out.code = -1 → out.res = res → e.opn = [] → out.removed = e.cls.length →
      Returned aa d res e out
  | found {k : ℕ} {cur : Trail Cell} :
      lastMin (Trail.total (manhattan d)) e.opn = some (k, cur) → cur.here = d → out.code = 0 →
      out.res.count = cur.cells.length →
      Cells.read out.res.indexList 0 out.res.count = cur.cells.map aa.indexOf →
      out.removed = e.cls.length + 1 → Returned aa d res e out

structure Completed (aa : AstarArray) (d : Cell) (base : ℕ) (res : AstarRes) (e : Exploration Cell)
    (out : Outcome) : Prop where
  returned : Returned aa d res e out
  goal : ∀ t ∈ e.cls, t.here ≠ d
  cursor : out.state.cursor = base + e.size
  room : base + e.size ≤ 4095
  removed : out.removed ≤ aa.width * aa.height + 1
  ok : out.state.Ok
  inited : out.state.allocData.inited ≠ 0

abbrev round (aa : AstarArray) (d : Cell) : Exploration Cell → Exploration Cell :=
  advance (successors aa) (manhattan d) d

theorem inv_rounds (aa : AstarArray) (b d : Cell) (n : ℕ) :
    Inv (successors aa) b ((round aa d)^[n] (start b)) :=
  inv_iterate (consistent_manhattan aa d) b d n

def insideCells (aa : AstarArray) : Finset Cell := Finset.range aa.width ×ˢ Finset.range aa.height

theorem mem_insideCells {c : Cell} : c ∈ insideCells aa ↔ aa.Inside c := by
  simp [insideCells, AstarArray.Inside]

theorem Sim.size_le (h : Sim aa d base l s opn cls) {b : Cell}
    (hI : Inv (successors aa) b (exploration opn cls)) :
    opn.length + cls.length ≤ aa.width * aa.height + 1 := by
  have hsub : ∀ t ∈ (exploration opn cls).opn ++ (exploration opn cls).cls,
      t.here ∈ insideCells aa := by
    intro t ht
    rw [exploration, ← List.map_append] at ht
    obtain ⟨x, hx, rfl⟩ := List.mem_map.mp ht
    exact mem_insideCells.mpr (h.rep x hx).inside
  have hle := hI.size_le (insideCells aa) hsub
  rw [exploration_size] at hle
  simpa [insideCells] using hle

theorem Sim.cells_length_le (h : Sim aa d base l s opn cls) {b : Cell} {x : Slot} (hx : x ∈ cls)
    (ht : IsTrail (successors aa) b x.2)
    (hmin : ∀ vs c, Walk (Edge (successors aa)) b x.2.here vs c → x.2.cost ≤ c) :
    x.2.cells.Nodup ∧ x.2.cells.length ≤ cls.length := by
  obtain ⟨vs, hw, hcells⟩ := ht
  have hnd : x.2.cells.Nodup := by
    rw [hcells, List.nodup_reverse]
    exact hw.nodup_of_least (fun _ _ _ he => by rw [he.2]; exact Nat.one_pos) hmin
  refine ⟨hnd, ?_⟩
  have hsub := closed_cells (fun y hy => h.rep y (List.mem_append_right _ hy)) _ hx rfl
  have hle := (hnd.subperm hsub).length_le
  rwa [List.length_map] at hle

theorem Sim.cursor_eq (h : Sim aa d base l s opn cls) :
    s.cursor = base + (exploration opn cls).size := by
  rw [exploration_size, h.cursor]

theorem Sim.size_room (h : Sim aa d base l s opn cls) :
    base + (exploration opn cls).size ≤ 4095 := by
  rw [← h.cursor_eq]
  exact h.room

theorem Sim.setCoords (h : Sim aa d base l s opn cls) (cx cy : ℕ) :
    Sim aa d base { l with cx := cx, cy := cy } s opn cls :=
  ⟨⟨h.openNum, h.closedNum, h.curr, h.openAt, h.closedAt, h.gap⟩, h.toHeld, h.ok, h.inited,
    h.cursor, h.room⟩

theorem total_pos {b : Cell} (hI : Inv (successors aa) b (exploration opn cls)) :
    (∀ x ∈ opn, 0 < x.2.total (manhattan d)) ∨ opn.length = 1 := by
  rcases hI.phase with he | ⟨-, hback⟩
  · right
    have hl := congrArg (fun e => e.opn.length) he
    simpa [exploration, Exploration.start] using hl
  · left
    intro x hx
    have hne := hback x.2 (List.mem_append_left _ (List.mem_map_of_mem hx))
    have hpos : 0 < x.2.back.length := List.length_pos_iff.mpr hne
    exact Nat.add_pos_left hpos _

variable {b : Cell} {res : AstarRes}

theorem findLoop_found (h : Sim aa d base l s opn cls)
    (hI : Inv (successors aa) b (exploration opn cls))
    (hgoal : ∀ t ∈ (exploration opn cls).cls, t.here ≠ d) {k : ℕ} {cur : Trail Cell}
    (hmin : lastMin (Trail.total (manhattan d)) (exploration opn cls).opn = some (k, cur))
    (hcur : cur.here = d) {links : ℕ} (hlinks : cls.length + 1 ≤ links) (fuel : ℕ) :
    ∃ out, findLoop aa (aa.indexOf d) d.1 d.2 res links (fuel + 1) (l, s) = .ok out ∧
      Completed aa d base res (exploration opn cls) out := by
  have hle := h.size_le hI
  have hfits := h.fits
  obtain ⟨hlt, hget⟩ := chosen_slot hmin
  have hne : l.openNum ≠ 0 := by rw [h.openNum]; omega
  have hrep := h.rep opn[k] (List.mem_append_left _ (List.getElem_mem hlt))
  have hclosed := h.moveToClosed hlt
  have hmemcls : opn[k] ∈ opn[k] :: cls := List.mem_cons_self
  have hback := hI.back_of_goal hgoal hmin hcur
  have hleast : ∀ vs c, Walk (Edge (successors aa)) b cur.here vs c → cur.cost ≤ c :=
    fun vs c hw => hI.least (consistent_manhattan aa d) hmin hback hw
  have htrail : IsTrail (successors aa) b opn[k].2 :=
    hI.walks _ (List.mem_append_left _ (List.mem_map_of_mem (List.getElem_mem hlt)))
  have hlen := (hclosed.cells_length_le hmemcls htrail (by rw [hget]; exact hleast)).2
  rw [hget, List.length_cons] at hlen
  obtain ⟨lst', hlist, hread, -⟩ := @getResultList_spec _ _ _ _
    (fun y hy => hclosed.rep y (List.mem_append_right _ hy)) cur.cells _ hmemcls
    (by rw [hget]) links 0 res.indexList (by omega) (by omega)
  have hfirst := hclosed.closedAt 0 (by simp)
  rw [Nat.add_zero, List.getElem_cons_zero] at hfirst
  rw [findLoop, if_neg hne]
  simp only [h.getMinFIndex_eq (total_pos hI) hmin, h.openAt k hlt, hrep.index, hget, hcur, if_true,
    hfirst, hlist]
  refine ⟨_, rfl, ⟨.found hmin hcur rfl ?_ ?_ ?_, hgoal, h.cursor_eq, h.size_room, ?_, h.ok,
    h.inited⟩⟩
  · simp
  · simpa using hread
  · simp [hclosed.closedNum, exploration]
  · simp only [hclosed.closedNum, List.length_cons]
    omega

theorem findLoop_expand (ha : aa.Loaded) (hd : aa.Inside d) (h : Sim aa d base l s opn cls)
    (hI : Inv (successors aa) b (exploration opn cls)) {k : ℕ} {cur : Trail Cell}
    (hmin : lastMin (Trail.total (manhattan d)) (exploration opn cls).opn = some (k, cur))
    (hcur : cur.here ≠ d) (links fuel : ℕ) :
    (∃ l' s' opn' x, findLoop aa (aa.indexOf d) d.1 d.2 res links (fuel + 1) (l, s) =
        findLoop aa (aa.indexOf d) d.1 d.2 res links fuel (l', s') ∧
      Sim aa d base l' s' opn' (x :: cls) ∧ x.2 = cur ∧
      exploration opn' (x :: cls) = round aa d (exploration opn cls)) ∨
    (findLoop aa (aa.indexOf d) d.1 d.2 res links (fuel + 1) (l, s) = .error .nullPointer ∧
      4095 < base + (round aa d (exploration opn cls)).size) := by
  obtain ⟨hlt, hget⟩ := chosen_slot hmin
  have hne : l.openNum ≠ 0 := by rw [h.openNum]; omega
  have hrep := h.rep opn[k] (List.mem_append_left _ (List.getElem_mem hlt))
  have hclosed := h.moveToClosed hlt
  have hins : aa.Inside cur.here := hget ▸ hrep.inside
  have hnidx : ¬ aa.indexOf cur.here = aa.indexOf d := fun he => hcur (indexOf_injective hins hd he)
  have hopen' : (exploration (opn.eraseIdx k) (opn[k] :: cls)).opn =
      (exploration opn cls).opn.eraseIdx k := by
    simp only [exploration, List.eraseIdx_map]
  have hcls' : (exploration (opn.eraseIdx k) (opn[k] :: cls)).cls =
      cur :: (exploration opn cls).cls := by
    simp only [exploration, List.map_cons, hget]
  have hcurmem : (opn[k].1, cur) ∈ opn[k] :: cls := by
    rw [← hget]
    exact List.mem_cons_self
  have hround : round aa d (exploration opn cls) =
      expand (successors aa) cur (close k cur (exploration opn cls)) := by
    simp only [round, advance, hmin, if_neg hcur]
  have hdis := hI.close_nodup hmin
  rw [← hopen', ← hcls'] at hdis
  have hvisit := (hclosed.setCoords cur.here.1 cur.here.2).visitNeighbours hcurmem hdis
    (neighbours cur.here.1 cur.here.2)
  rw [hopen', hcls'] at hvisit
  have hrun : findLoop aa (aa.indexOf d) d.1 d.2 res links (fuel + 1) (l, s) = (do
      let ls ← Astar.visitNeighbours aa d.1 d.2 opn[k].1 (neighbours cur.here.1 cur.here.2)
        ({ Astar.moveToClosed l k with cx := cur.here.1, cy := cur.here.2 }, s)
      findLoop aa (aa.indexOf d) d.1 d.2 res links fuel ls) := by
    rw [findLoop, if_neg hne]
    simp only [h.getMinFIndex_eq (total_pos hI) hmin, h.openAt k hlt, hrep.index, hget,
      if_neg hnidx, hsIndex2coord_indexOf ha hins]
    rfl
  rcases hvisit with ⟨l', s', opn', he, hs', hopn⟩ | ⟨he, hover⟩
  · refine Or.inl ⟨l', s', opn', opn[k], by rw [hrun, he]; rfl, hs', hget, ?_⟩
    rw [hround]
    simp only [expand, close, exploration, List.map_cons, hget] at hopn ⊢
    rw [hopn]
    rfl
  · refine Or.inr ⟨by rw [hrun, he]; rfl, ?_⟩
    rw [hround]
    simp only [expand, close, Exploration.size, exploration, List.length_cons,
      List.length_map] at hover ⊢
    exact hover

theorem findLoop_spec (ha : aa.Loaded) (hd : aa.Inside d) {links : ℕ} (fuel : ℕ)
    (hlinks : fuel + cls.length ≤ links) (h : Sim aa d base l s opn cls)
    (hI : Inv (successors aa) b (exploration opn cls))
    (hgoal : ∀ t ∈ (exploration opn cls).cls, t.here ≠ d) :
    (∃ out n, n < fuel ∧ findLoop aa (aa.indexOf d) d.1 d.2 res links fuel (l, s) = .ok out ∧
      Completed aa d base res ((round aa d)^[n] (exploration opn cls)) out) ∨
    (∃ n, findLoop aa (aa.indexOf d) d.1 d.2 res links fuel (l, s) = .error .nullPointer ∧
      4095 < base + ((round aa d)^[n] (exploration opn cls)).size) ∨
    (findLoop aa (aa.indexOf d) d.1 d.2 res links fuel (l, s) = .error .outOfFuel ∧
      fuel + cls.length ≤ aa.width * aa.height + 1) := by
  induction fuel generalizing l s opn cls with
  | zero =>
    have hle := h.size_le hI
    exact Or.inr (Or.inr ⟨rfl, by omega⟩)
  | succ fuel ih =>
    have hle := h.size_le hI
    cases hmin : lastMin (Trail.total (manhattan d)) (exploration opn cls).opn with
    | none =>
      have hnil := lastMin_eq_none.mp hmin
      have hzero : l.openNum = 0 := by
        rw [h.openNum, List.map_eq_nil_iff.mp hnil, List.length_nil]
      refine Or.inl ⟨⟨-1, res, s, l.closedNum⟩, 0, fuel.succ_pos, by rw [findLoop, if_pos hzero],
        ⟨.noPath rfl rfl hnil ?_, hgoal, h.cursor_eq, h.size_room, ?_, h.ok, h.inited⟩⟩
      · simp [exploration, h.closedNum]
      · simp only [h.closedNum]
        omega
    | some kt =>
      obtain ⟨k, cur⟩ := kt
      by_cases hcur : cur.here = d
      · obtain ⟨out, ho, hout⟩ := findLoop_found h hI hgoal hmin hcur
          (show cls.length + 1 ≤ links by omega) fuel
        exact Or.inl ⟨out, 0, fuel.succ_pos, ho, hout⟩
      · rcases findLoop_expand ha hd h hI hmin hcur links fuel with
          ⟨l', s', opn', x, he, hs', hx, hnext⟩ | ⟨he, hover⟩
        · have hI' : Inv (successors aa) b (exploration opn' (x :: cls)) := by
            rw [hnext]
            exact hI.advance (consistent_manhattan aa d) d
          have hgoal' : ∀ t ∈ (exploration opn' (x :: cls)).cls, t.here ≠ d := by
            intro t ht
            rcases List.mem_cons.mp ht with rfl | ht
            · exact hx ▸ hcur
            · exact hgoal t ht
          rw [he]
          have hlinks' : fuel + (x :: cls).length ≤ links := by
            rw [List.length_cons]
            omega
          rcases ih hlinks' hs' hI' hgoal' with
            ⟨out, n, hn, ho, hout⟩ | ⟨n, ho, hsz⟩ | ⟨ho, hfuel⟩
          · rw [hnext, ← Function.iterate_succ_apply] at hout
            exact Or.inl ⟨out, n + 1, Nat.succ_lt_succ hn, ho, hout⟩
          · rw [hnext, ← Function.iterate_succ_apply] at hsz
            exact Or.inr (Or.inl ⟨n + 1, ho, hsz⟩)
          · rw [List.length_cons] at hfuel
            exact Or.inr (Or.inr ⟨ho, by omega⟩)
        · exact Or.inr (Or.inl ⟨1, he, hover⟩)

theorem sim_start (hs : s.Ok) (hi : s.allocData.inited ≠ 0) (hb : aa.Inside b) {p : NodePtr}
    {s' : AstarState} (he : astarNodeAlloc s = (some p, s')) :
    Sim aa d s.cursor (startLocals p b.1 b.2)
      (setNode s' p ⟨aa.indexOf b, 1, 0 + calcHvalue b.1 b.2 d.1 d.2, 0,
        calcHvalue b.1 b.2 d.1 d.2, none⟩) [(p, ⟨b, []⟩)] [] := by
  rcases astarNodeAlloc_spec hs hi with ⟨-, hfail⟩ | ⟨hlt, q, hq, hok, hext, hcursor, hiss, -⟩
  · rw [hfail] at he
    cases he
  · rw [he] at hq hok hext hcursor hiss
    obtain rfl := Option.some.inj hq
    refine ⟨⟨rfl, rfl, rfl, ?_, ?_, ?_⟩, ⟨?_, ?_, by simp⟩, setNode_ok hok, ?_, hcursor, ?_⟩
    · intro i hi
      rw [List.length_singleton] at hi
      obtain rfl : i = 0 := by omega
      simp [startLocals]
    · intro i hi
      cases hi
    · intro i hi _
      rw [List.length_singleton] at hi
      simp only [startLocals]
      rw [Function.update_of_ne (by omega)]
    · intro x hx
      obtain rfl : x = (p, ⟨b, []⟩) := by simpa using hx
      refine ⟨hb, ?_, ?_, ?_, Or.inl ⟨rfl, ?_⟩⟩ <;>
        simp [setNode, Trail.cost, Trail.total, calcHvalue_eq]
    · intro x hx
      obtain rfl : x = (p, ⟨b, []⟩) := by simpa using hx
      exact setNode_issued hiss
    · exact hext.inited ▸ hi
    · exact le_of_eq_of_le hcursor (by omega)

theorem hsAstarFindPath_eq (ha : aa.Loaded) (hb : aa.Inside b) (hd : aa.Inside d) (fuel : ℕ) :
    hsAstarFindPath fuel aa (aa.indexOf b) (aa.indexOf d) res s =
      match astarNodeAlloc s with
      | (none, _) => .error .nullPointer
      | (some p, s') =>
        findLoop aa (aa.indexOf d) d.1 d.2 res fuel fuel (startLocals p b.1 b.2,
          setNode s' p ⟨aa.indexOf b, 1, 0 + calcHvalue b.1 b.2 d.1 d.2, 0,
            calcHvalue b.1 b.2 d.1 d.2, none⟩) := by
  have hneg : ¬ (aa.indexOf b < 0 ∨ aa.indexOf d < 0) := by
    simp only [AstarArray.indexOf]
    omega
  simp only [hsAstarFindPath, if_neg hneg, hsIndex2coord_indexOf ha hb, hsIndex2coord_indexOf ha hd,
    bind, Except.bind, pure]
  cases astarNodeAlloc s with
  | mk q s' => cases q <;> rfl

/-- A call on a loaded grid runs the exploration from the begin cell. It fails to get a node if
the allocator was never set up, or if the exploration needs more slots than are left. -/
theorem hsAstarFindPath_spec (ha : aa.Loaded) (hs : s.Ok) (hb : aa.Inside b) (hd : aa.Inside d)
    (res : AstarRes) (fuel : ℕ) :
    (∃ out n, n < fuel ∧ hsAstarFindPath fuel aa (aa.indexOf b) (aa.indexOf d) res s = .ok out ∧
      Completed aa d s.cursor res ((round aa d)^[n] (start b)) out) ∨
    (hsAstarFindPath fuel aa (aa.indexOf b) (aa.indexOf d) res s = .error .nullPointer ∧
      (s.allocData.inited = 0 ∨ ∃ n, 4095 < s.cursor + ((round aa d)^[n] (start b)).size)) ∨
    (hsAstarFindPath fuel aa (aa.indexOf b) (aa.indexOf d) res s = .error .outOfFuel ∧
      fuel ≤ aa.width * aa.height + 1) := by
  rw [hsAstarFindPath_eq ha hb hd]
  by_cases hi : s.allocData.inited = 0
  · right; left
    have hnone := astarNodeAlloc_idle hs hi
    refine ⟨?_, Or.inl hi⟩
    split
    · rfl
    · rename_i p s' he
      rw [he] at hnone
      cases hnone
  · split
    · rename_i s' he
      right; left
      refine ⟨rfl, Or.inr ⟨0, ?_⟩⟩
      rcases astarNodeAlloc_spec hs hi with ⟨hfull, -⟩ | ⟨-, p, hp, -⟩
      · simp only [Function.iterate_zero_apply, Exploration.size, Exploration.start,
          List.length_singleton, List.length_nil]
        omega
      · rw [he] at hp
        cases hp
    · rename_i p s' he
      have hsim := sim_start (d := d) hs hi hb he
      have hI := inv_start (successors aa) b
      have hstart : exploration [(p, ⟨b, []⟩)] [] = start b := rfl
      rcases findLoop_spec ha hd fuel (le_refl _) hsim (hstart ▸ hI)
        (by intro t ht; cases ht) with h | ⟨n, h, hn⟩ | ⟨h, hf⟩
      · exact Or.inl h
      · exact Or.inr (Or.inl ⟨h, Or.inr ⟨n, hn⟩⟩)
      · exact Or.inr (Or.inr ⟨h, hf⟩)

theorem hsAstarFindPath_state_ok (ha : aa.Loaded) (hs : s.Ok) {beginIndex endIndex : ℤ} {fuel : ℕ}
    {out : Outcome} (h : hsAstarFindPath fuel aa beginIndex endIndex res s = .ok out) :
    out.state.Ok := by
  by_cases hneg : beginIndex < 0 ∨ endIndex < 0
  · simp only [hsAstarFindPath, if_pos hneg, pure, Except.pure, Except.ok.injEq] at h
    exact h ▸ hs
  · by_cases hbr : beginIndex < ((aa.width * aa.height : ℕ) : ℤ)
    · obtain ⟨b, hb, rfl⟩ := exists_cell ha (by omega) hbr
      by_cases her : endIndex < ((aa.width * aa.height : ℕ) : ℤ)
      · obtain ⟨d, hd, rfl⟩ := exists_cell ha (by omega) her
        rcases hsAstarFindPath_spec ha hs hb hd res fuel with
          ⟨out', n, -, ho, hout⟩ | ⟨ho, -⟩ | ⟨ho, -⟩
        · rw [ho, Except.ok.injEq] at h
          exact h ▸ hout.ok
        · rw [ho] at h
          cases h
        · rw [ho] at h
          cases h
      · simp only [hsAstarFindPath, if_neg hneg, hsIndex2coord_indexOf ha hb,
          hsIndex2coord_outside ha her, bind, Except.bind, pure, Except.pure,
          Except.ok.injEq] at h
        exact h ▸ hs
    · simp only [hsAstarFindPath, if_neg hneg, hsIndex2coord_outside ha hbr, bind, Except.bind,
        pure, Except.pure, Except.ok.injEq] at h
      exact h ▸ hs

theorem Reached.ok (h : Reached s) : s.Ok := by
  induction h with
  | start nodes => exact AstarState.start_ok nodes
  | @load s data width height ta _ ih =>
    by_cases hz : (hsAstarLoadData data width height ta s).1 = 0
    · rw [(hsAstarLoadData_loaded hz).2]
      exact (astarNodeAllocatorRecycle_spec ih).1
    · cases data with
      | none => exact ih
      | some data =>
        simp only [hsAstarLoadData] at hz ⊢
        split_ifs at hz ⊢
        · exact ih
        · exact ih
        · exact absurd rfl hz
  | find ha _ h ih => exact hsAstarFindPath_state_ok ha ih h
  | clear _ _ => exact astarNodeFree_ok _
  | recycle _ ih => exact (astarNodeAllocatorRecycle_spec ih).1

end HsCommon.Astar
