import HsCommon.Astar.Search

/-!
# Paths found by hs_astar_find_path

Paths are lists of grid indices, as the caller sees them, over the data that was
loaded: consecutive indices are neighbouring cells and no cell after the first is
a wall. Such lists are the walks of the successor graph, so the list written by a
call that returns 0 is a shortest path, and the call returns 0 exactly when there
is a path.
-/

namespace HsCommon.Astar
open LabelSetting Exploration

def AdjacentIndex (width height : ℕ) (i j : ℤ) : Prop :=
  ∃ x y x' y' : ℕ, x < width ∧ y < height ∧ x' < width ∧ y' < height ∧
    Adjacent (x, y) (x', y') ∧ i = (y * width + x : ℕ) ∧ j = (y' * width + x' : ℕ)

structure IsPath (data : ℕ → ℤ) (width height : ℕ) (beginIndex endIndex : ℤ) (p : List ℤ) :
    Prop where
  first : p.head? = some beginIndex
  last : p.getLast? = some endIndex
  chain : p.IsChain (AdjacentIndex width height)
  passable : ∀ i ∈ p.tail, data i.toNat ≠ 1

structure Holds (aa : AstarArray) (data : ℕ → ℤ) (width height : ℕ) : Prop where
  loaded : aa.Loaded
  width_eq : aa.width = width
  height_eq : aa.height = height
  cells : ∀ c, aa.Inside c → aa.arr (c.2 * width + c.1) = data (c.2 * width + c.1)

theorem holds_of_load {data : ℕ → ℤ} {width height : ℕ} {ta : AstarArray} {s : AstarState}
    (h : (hsAstarLoadData (some data) width height ta s).1 = 0) :
    Holds (hsAstarLoadData (some data) width height ta s).2.1 data width height := by
  have hl := (hsAstarLoadData_loaded h).1
  have hdim : (hsAstarLoadData (some data) width height ta s).2.1.width = width ∧
      (hsAstarLoadData (some data) width height ta s).2.1.height = height := by
    by_cases h1 : width = 0 ∨ height = 0
    · simp [hsAstarLoadData, h1] at h
    · by_cases h2 : width > maxArrayWidth ∨ height > maxArrayHeight
      · simp [hsAstarLoadData, h1, h2] at h
      · simp only [hsAstarLoadData, if_neg h1, if_neg h2, and_self]
  refine ⟨hl, hdim.1, hdim.2, ?_⟩
  intro c hc
  rw [hsAstarLoadData_arr h hc, Nat.mul_comm]

variable {aa : AstarArray} {data : ℕ → ℤ} {width height : ℕ}

theorem Holds.free_iff (h : Holds aa data width height) {c : Cell} (hc : aa.Inside c) :
    aa.Free c ↔ data (aa.indexOf c).toNat ≠ 1 := by
  have hcell := h.cells c hc
  rw [AstarArray.Free, AstarArray.indexOf, Int.toNat_natCast, h.width_eq, hcell]
  exact and_iff_right hc

theorem Holds.adjacent_iff (h : Holds aa data width height) {c c' : Cell} (hc : aa.Inside c)
    (hc' : aa.Inside c') :
    AdjacentIndex width height (aa.indexOf c) (aa.indexOf c') ↔ Adjacent c c' := by
  obtain ⟨-, rfl, rfl, -⟩ := h
  constructor
  · rintro ⟨x, y, x', y', hx, hy, hx', hy', ha, hi, hj⟩
    have e : c = (x, y) := @indexOf_injective aa c (x, y) hc ⟨hx, hy⟩ hi
    have e' : c' = (x', y') := @indexOf_injective aa c' (x', y') hc' ⟨hx', hy'⟩ hj
    rw [e, e']
    exact ha
  · intro ha
    exact ⟨c.1, c.2, c'.1, c'.2, hc.1, hc.2, hc'.1, hc'.2, ha, rfl, rfl⟩

theorem walk_inside {b t : Cell} (hb : aa.Inside b) {vs : List Cell} {c : ℕ}
    (h : Walk (Edge (successors aa)) b t vs c) : ∀ v ∈ b :: vs, aa.Inside v := by
  induction h with
  | nil => simpa using hb
  | snoc _ he ih =>
    intro v hv
    rw [← List.cons_append, List.mem_append, List.mem_singleton] at hv
    rcases hv with hv | rfl
    · exact ih v hv
    · exact (mem_successors.mp he.1).1.1

theorem walk_end_mem {b t : Cell} {vs : List Cell} {c : ℕ}
    (h : Walk (Edge (successors aa)) b t vs c) : (b :: vs).getLast? = some t := by
  cases h with
  | nil => rfl
  | snoc _ _ => rw [← List.cons_append, List.getLast?_concat]

theorem Holds.path_of_walk (h : Holds aa data width height) {b t : Cell} (hb : aa.Inside b)
    {vs : List Cell} {c : ℕ} (hw : Walk (Edge (successors aa)) b t vs c) :
    IsPath data width height (aa.indexOf b) (aa.indexOf t) ((b :: vs).map aa.indexOf) := by
  have hlast := walk_end_mem hw
  refine ⟨rfl, by rw [List.getLast?_map, hlast]; rfl, ?_, ?_⟩
  · induction hw with
    | nil => simp
    | @snoc u v vs c k hw he ih =>
      have hin := walk_inside hb hw
      have hu : aa.Inside u := hin u (List.mem_of_getLast? (walk_end_mem hw))
      have hv := mem_successors.mp he.1
      rw [← List.cons_append, List.map_append, List.isChain_append]
      refine ⟨ih (walk_end_mem hw), by simp, ?_⟩
      intro x hx y hy
      rw [List.getLast?_map, walk_end_mem hw] at hx
      obtain rfl := Option.mem_some_iff.mp hx
      obtain rfl := Option.mem_some_iff.mp hy
      exact (h.adjacent_iff hu hv.1.1).mpr hv.2
  · intro i hi
    obtain ⟨v, hv, rfl⟩ := List.mem_map.mp hi
    have hfree : aa.Free v := by
      clear hlast hi
      induction hw with
      | nil => cases hv
      | snoc _ he ih =>
        rcases List.mem_append.mp hv with hv | hv
        · exact ih hv
        · rw [List.mem_singleton.mp hv]
          exact (mem_successors.mp he.1).1
    exact (h.free_iff hfree.1).mp hfree

theorem Holds.walk_of_path (h : Holds aa data width height) {b t : Cell} (hb : aa.Inside b)
    (ht : aa.Inside t) {p : List ℤ}
    (hp : IsPath data width height (aa.indexOf b) (aa.indexOf t) p) :
    ∃ vs, Walk (Edge (successors aa)) b t vs vs.length ∧ p = (b :: vs).map aa.indexOf := by
  obtain ⟨hfirst, hlast, hchain, hpass⟩ := hp
  cases p with
  | nil => cases hfirst
  | cons i q =>
    obtain rfl : i = aa.indexOf b := Option.some.inj hfirst
    induction q generalizing b with
    | nil =>
      obtain rfl : b = t := indexOf_injective hb ht (Option.some.inj hlast)
      exact ⟨[], .nil, rfl⟩
    | cons j q ih =>
      rw [List.isChain_cons_cons] at hchain
      obtain ⟨x, y, x', y', hx, hy, hx', hy', ha, hi, hj⟩ := hchain.1
      have hw := h.width_eq
      have hh := h.height_eq
      have hv : aa.Inside (x', y') := ⟨by rw [hw]; exact hx', by rw [hh]; exact hy'⟩
      have hjv : j = aa.indexOf (x', y') := by
        rw [hj, AstarArray.indexOf, hw]
      subst hjv
      have hadj : Adjacent b (x', y') := (h.adjacent_iff hb hv).mp hchain.1
      have hfree : aa.Free (x', y') := (h.free_iff hv).mpr (hpass _ (by simp))
      rw [List.getLast?_cons_cons] at hlast
      obtain ⟨vs, hvs, hq⟩ := ih hv rfl hlast hchain.2
        (fun i hi => hpass i (List.mem_cons_of_mem _ hi))
      refine ⟨(x', y') :: vs, ?_, by rw [hq]; rfl⟩
      rw [List.length_cons, Nat.add_comm]
      exact hvs.cons ⟨mem_successors.mpr ⟨hfree, hadj⟩, rfl⟩

theorem goal_trail_least {d b : Cell} {n k : ℕ} {cur : Trail Cell}
    (hgoal : ∀ t ∈ ((round aa d)^[n] (start b)).cls, t.here ≠ d)
    (hmin : lastMin (Trail.total (manhattan d)) ((round aa d)^[n] (start b)).opn = some (k, cur))
    (hcur : cur.here = d) :
    ∃ vs, Walk (Edge (successors aa)) b d vs cur.cost ∧ cur.cells = (b :: vs).reverse ∧
      (∀ ws c, Walk (Edge (successors aa)) b d ws c → cur.cost ≤ c) := by
  have hI := inv_rounds aa b d n
  have hk := (lastMin_spec hmin).1
  have hback := hI.back_of_goal hgoal hmin hcur
  obtain ⟨vs, hw, hcells⟩ := hI.walks cur (List.mem_append_left _ (List.mem_of_getElem? hk))
  rw [hcur] at hw
  refine ⟨vs, hw, hcells, ?_⟩
  intro ws c hws
  exact hI.least (consistent_manhattan aa d) hmin hback (by rw [hcur]; exact hws)

theorem Holds.written_path (h : Holds aa data width height) {d b : Cell} (hb : aa.Inside b)
    (hd : aa.Inside d) {n k : ℕ} {cur : Trail Cell} {out : Outcome}
    (hgoal : ∀ t ∈ ((round aa d)^[n] (start b)).cls, t.here ≠ d)
    (hmin : lastMin (Trail.total (manhattan d)) ((round aa d)^[n] (start b)).opn = some (k, cur))
    (hcur : cur.here = d) (hcount : out.res.count = cur.cells.length)
    (hread : Cells.read out.res.indexList 0 out.res.count = cur.cells.map aa.indexOf) :
    let p := (Cells.read out.res.indexList 0 out.res.count).reverse
    IsPath data width height (aa.indexOf b) (aa.indexOf d) p ∧ p.Nodup ∧
      ∀ q, IsPath data width height (aa.indexOf b) (aa.indexOf d) q → out.res.count ≤ q.length := by
  intro p
  obtain ⟨vs, hw, hcells, hleast⟩ := goal_trail_least hgoal hmin hcur
  have hp : p = (b :: vs).map aa.indexOf := by
    change (Cells.read out.res.indexList 0 out.res.count).reverse = _
    rw [hread, hcells, List.map_reverse, List.reverse_reverse]
  refine ⟨hp ▸ h.path_of_walk hb hw, ?_, ?_⟩
  · have hnd : (b :: vs).Nodup :=
      hw.nodup_of_least (fun _ _ _ he => by rw [he.2]; exact Nat.one_pos) hleast
    rw [hp]
    refine hnd.map_on ?_
    intro c hc c' hc' he
    exact indexOf_injective (walk_inside hb hw c hc) (walk_inside hb hw c' hc') he
  · intro q hq
    obtain ⟨ws, hws, rfl⟩ := h.walk_of_path hb hd hq
    have hle := hleast ws ws.length hws
    rw [hcount, Trail.cells, List.length_cons, List.length_map, List.length_cons]
    exact Nat.succ_le_succ hle

theorem Holds.no_path (h : Holds aa data width height) {d b : Cell} (hb : aa.Inside b)
    (hd : aa.Inside d) {n : ℕ} (hgoal : ∀ t ∈ ((round aa d)^[n] (start b)).cls, t.here ≠ d)
    (hnil : ((round aa d)^[n] (start b)).opn = []) (q : List ℤ) :
    ¬ IsPath data width height (aa.indexOf b) (aa.indexOf d) q := by
  intro hq
  obtain ⟨vs, hw, -⟩ := h.walk_of_path hb hd hq
  obtain ⟨t, ht, hh⟩ := (inv_rounds aa b d n).exhausted hnil hw
  exact hgoal t ht hh

/-- A call that returns 0 has written a shortest path, last cell first. -/
theorem hsAstarFindPath_shortest (data : ℕ → ℤ) (width height : ℕ) (ta : AstarArray)
    (s₀ s : AstarState) (hload : (hsAstarLoadData (some data) width height ta s₀).1 = 0)
    (hs : Reached s) (beginIndex endIndex : ℤ)
    (hb : 0 ≤ beginIndex ∧ beginIndex < ((width * height : ℕ) : ℤ))
    (he : 0 ≤ endIndex ∧ endIndex < ((width * height : ℕ) : ℤ)) (fuel : ℕ) (res : AstarRes)
    (out : Outcome)
    (hrun : hsAstarFindPath fuel (hsAstarLoadData (some data) width height ta s₀).2.1 beginIndex
      endIndex res s = .ok out) (hcode : out.code = 0) :
    let p := (Cells.read out.res.indexList 0 out.res.count).reverse
    IsPath data width height beginIndex endIndex p ∧ p.Nodup ∧
      ∀ q, IsPath data width height beginIndex endIndex q → out.res.count ≤ q.length := by
  have h := holds_of_load hload
  generalize (hsAstarLoadData (some data) width height ta s₀).2.1 = aa at h hrun
  rw [← h.width_eq, ← h.height_eq] at hb he
  obtain ⟨b, hbi, rfl⟩ := exists_cell h.loaded hb.1 hb.2
  obtain ⟨d, hdi, rfl⟩ := exists_cell h.loaded he.1 he.2
  rcases hsAstarFindPath_spec h.loaded hs.ok hbi hdi res fuel with
    ⟨out', n, -, ho, hout⟩ | ⟨ho, -⟩ | ⟨ho, -⟩
  · rw [ho, Except.ok.injEq] at hrun
    subst hrun
    cases hout.returned with
    | noPath hneg =>
      rw [hneg] at hcode
      cases hcode
    | found hmin hcur _ hcount hread _ =>
      exact h.written_path hbi hdi hout.goal hmin hcur hcount hread
  · rw [ho] at hrun
    cases hrun
  · rw [ho] at hrun
    cases hrun

def cornerWall (i : ℕ) : ℤ := if i = 1 then 1 else 0

theorem hsAstarFindPath_shortest_corner :
    let load := hsAstarLoadData (some cornerWall) 2 2 .blank (.start fun _ => .zero)
    ∃ out, hsAstarFindPath 6 load.2.1 0 3 .blank load.2.2 = .ok out ∧
      Cells.read out.res.indexList 0 out.res.count = [3, 2, 0] ∧
      IsPath cornerWall 2 2 0 3 [0, 2, 3] ∧ ∀ q, IsPath cornerWall 2 2 0 3 q → 3 ≤ q.length := by
  intro load
  have hrun : (hsAstarFindPath 6 load.2.1 0 3 .blank load.2.2).map (fun out =>
      (out.code, Cells.read out.res.indexList 0 out.res.count)) = .ok (0, [3, 2, 0]) := by
    decide +kernel
  obtain ⟨out, ho, hout⟩ := exists_ok_of_map hrun
  obtain ⟨hcode, hread⟩ := Prod.mk.inj hout
  have hpath := hsAstarFindPath_shortest cornerWall 2 2 .blank (.start fun _ => .zero) load.2.2
    rfl (.load _ 2 2 _ (.start _)) 0 3 (by decide) (by decide) 6 .blank out ho hcode
  have hcount : out.res.count = 3 := by
    rw [← Cells.read_length out.res.indexList 0 out.res.count, hread]
    rfl
  dsimp only at hpath
  rw [hread, hcount] at hpath
  exact ⟨out, ho, hread, hpath.1, hpath.2.2⟩

/-- With a budget for `width * height + 2` rounds a call that gets its nodes returns, 0 exactly
when there is a path. -/
theorem hsAstarFindPath_total (data : ℕ → ℤ) (width height : ℕ) (ta : AstarArray)
    (s₀ s : AstarState) (hload : (hsAstarLoadData (some data) width height ta s₀).1 = 0)
    (hs : Reached s) (beginIndex endIndex : ℤ)
    (hb : 0 ≤ beginIndex ∧ beginIndex < ((width * height : ℕ) : ℤ))
    (he : 0 ≤ endIndex ∧ endIndex < ((width * height : ℕ) : ℤ)) (fuel : ℕ)
    (hfuel : width * height + 2 ≤ fuel) (res : AstarRes)
    (halloc : hsAstarFindPath fuel (hsAstarLoadData (some data) width height ta s₀).2.1 beginIndex
      endIndex res s ≠ .error .nullPointer) :
    ∃ out, hsAstarFindPath fuel (hsAstarLoadData (some data) width height ta s₀).2.1 beginIndex
        endIndex res s = .ok out ∧ out.removed ≤ width * height + 1 ∧
      ((out.code = 0 ∧ ∃ p, IsPath data width height beginIndex endIndex p) ∨
        (out.code = -1 ∧ ∀ p, ¬ IsPath data width height beginIndex endIndex p)) := by
  have h := holds_of_load hload
  generalize (hsAstarLoadData (some data) width height ta s₀).2.1 = aa at h halloc ⊢
  rw [← h.width_eq, ← h.height_eq] at hb he
  obtain ⟨b, hbi, rfl⟩ := exists_cell h.loaded hb.1 hb.2
  obtain ⟨d, hdi, rfl⟩ := exists_cell h.loaded he.1 he.2
  rcases hsAstarFindPath_spec h.loaded hs.ok hbi hdi res fuel with
    ⟨out, n, -, ho, hout⟩ | ⟨ho, -⟩ | ⟨-, hshort⟩
  · have hrem := hout.removed
    rw [h.width_eq, h.height_eq] at hrem
    refine ⟨out, ho, hrem, ?_⟩
    cases hout.returned with
    | noPath hneg _ hnil _ => exact Or.inr ⟨hneg, h.no_path hbi hdi hout.goal hnil⟩
    | found hmin hcur hzero hcount hread _ =>
      exact Or.inl ⟨hzero, _, (h.written_path hbi hdi hout.goal hmin hcur hcount hread).1⟩
  · exact absurd ho halloc
  · rw [h.width_eq, h.height_eq] at hshort
    omega

theorem hsAstarFindPath_total_corner :
    let load := hsAstarLoadData (some cornerWall) 2 2 .blank (.start fun _ => .zero)
    ∃ out, hsAstarFindPath 6 load.2.1 0 3 .blank load.2.2 = .ok out ∧ out.removed ≤ 5 ∧
      ((out.code = 0 ∧ ∃ p, IsPath cornerWall 2 2 0 3 p) ∨
        (out.code = -1 ∧ ∀ p, ¬ IsPath cornerWall 2 2 0 3 p)) := by
  intro load
  have hrun : (hsAstarFindPath 6 load.2.1 0 3 .blank load.2.2).map Outcome.code = .ok 0 := by
    decide +kernel
  refine hsAstarFindPath_total cornerWall 2 2 .blank (.start fun _ => .zero) load.2.2
    rfl (.load _ 2 2 _ (.start _)) 0 3 (by decide) (by decide) 6 (by decide) .blank ?_
  intro hnull
  rw [hnull] at hrun
  cases hrun

end HsCommon.Astar
