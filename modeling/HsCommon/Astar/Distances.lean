import HsCommon.Astar.Capacity
import HsCommon.Library.Distances

/-!
# The answers as distances

A call that returns 0 lists one cell more than its path has steps. These numbers
fit together whenever the calls are made, in whatever state the earlier ones left
the allocator: they are the distances of the grid. The begin cell is not tested,
so a wall has ways out of it and none into it, and two calls with the cells
exchanged agree as long as both cells are walls or neither is.
-/

namespace HsCommon.Astar
open LabelSetting Exploration

variable {aa aa' : AstarArray} {data data' : ℕ → ℤ} {width height : ℕ} {b d e : Cell}
  {out out' out'' : Outcome}

/-- `out` is what some call for the two indices returns. -/
def Reply (aa : AstarArray) (beginIndex endIndex : ℤ) (out : Outcome) : Prop :=
  ∃ fuel res s, Reached s ∧ hsAstarFindPath fuel aa beginIndex endIndex res s = .ok out

def Outcome.listed (out : Outcome) : List ℤ := Cells.read out.res.indexList 0 out.res.count

inductive Reports (aa : AstarArray) (b d : Cell) (out : Outcome) : Prop where
  | path {n : ℕ} {vs : List Cell} : out.code = 0 → out.res.count = n + 1 →
      Walk (Edge (successors aa)) b d vs n → Least (Edge (successors aa)) b d n →
      out.listed = ((b :: vs).map aa.indexOf).reverse → Reports aa b d out
  | noPath : out.code = -1 → (∀ vs n, ¬ Walk (Edge (successors aa)) b d vs n) →
      Reports aa b d out

def AstarArray.InRange (aa : AstarArray) (index : ℤ) : Prop :=
  0 ≤ index ∧ index < ((aa.width * aa.height : ℕ) : ℤ)

theorem Completed.reports {res : AstarRes} {base n : ℕ}
    (h : Completed aa d base res ((round aa d)^[n] (start b)) out) : Reports aa b d out := by
  cases h.returned with
  | noPath hcode _ hnil _ =>
    refine .noPath hcode fun vs c hw => ?_
    obtain ⟨t, ht, hd⟩ := (inv_rounds aa b d n).exhausted hnil hw
    exact h.goal t ht hd
  | @found k cur hmin hcur hcode hcount hread _ =>
    obtain ⟨vs, hw, hcells, hleast⟩ := goal_trail_least h.goal hmin hcur
    refine .path hcode ?_ hw ⟨⟨vs, hw⟩, hleast⟩ ?_
    · rw [hcount, Trail.cells, List.length_cons, Trail.cost]
    · rw [Outcome.listed, hread, hcells, List.map_reverse]

theorem reply_outside (ha : aa.Loaded) {i j : ℤ} (hout : ¬ (aa.InRange i ∧ aa.InRange j))
    (h : Reply aa i j out) : out.code = -1 := by
  obtain ⟨fuel, res, s, -, hrun⟩ := h
  simp only [AstarArray.InRange] at hout
  by_cases hneg : i < 0 ∨ j < 0
  · simp only [hsAstarFindPath, if_pos hneg, pure, Except.pure, Except.ok.injEq] at hrun
    rw [← hrun]
  · by_cases hi : i < ((aa.width * aa.height : ℕ) : ℤ)
    · obtain ⟨b, hb, rfl⟩ := exists_cell ha (by omega) hi
      have hj : ¬ j < ((aa.width * aa.height : ℕ) : ℤ) := by omega
      simp only [hsAstarFindPath, if_neg hneg, hsIndex2coord_indexOf ha hb,
        hsIndex2coord_outside ha hj, bind, Except.bind, pure, Except.pure, Except.ok.injEq] at hrun
      rw [← hrun]
    · simp only [hsAstarFindPath, if_neg hneg, hsIndex2coord_outside ha hi, bind, Except.bind,
        pure, Except.pure, Except.ok.injEq] at hrun
      rw [← hrun]

theorem Reply.reports (ha : aa.Loaded) (hb : aa.Inside b) (hd : aa.Inside d)
    (h : Reply aa (aa.indexOf b) (aa.indexOf d) out) : Reports aa b d out := by
  obtain ⟨fuel, res, s, hs, hrun⟩ := h
  rcases hsAstarFindPath_spec ha hs.ok hb hd res fuel with
    ⟨out', n, -, ho, hout⟩ | ⟨ho, -⟩ | ⟨ho, -⟩
  · rw [ho, Except.ok.injEq] at hrun
    exact hrun ▸ hout.reports
  · rw [ho] at hrun
    cases hrun
  · rw [ho] at hrun
    cases hrun

theorem Reply.cells (ha : aa.Loaded) {i j : ℤ} (h : Reply aa i j out) (hcode : out.code = 0) :
    ∃ b d, aa.Inside b ∧ aa.Inside d ∧ aa.indexOf b = i ∧ aa.indexOf d = j := by
  by_cases hin : aa.InRange i ∧ aa.InRange j
  · obtain ⟨b, hb, hi⟩ := exists_cell ha hin.1.1 hin.1.2
    obtain ⟨d, hd, hj⟩ := exists_cell ha hin.2.1 hin.2.2
    exact ⟨b, d, hb, hd, hi, hj⟩
  · have hneg := reply_outside ha hin h
    rw [hneg] at hcode
    cases hcode

theorem Reports.least (h : Reports aa b d out) (hcode : out.code = 0) :
    ∃ n, out.res.count = n + 1 ∧ Least (Edge (successors aa)) b d n := by
  cases h with
  | path _ hcount _ hleast _ => exact ⟨_, hcount, hleast⟩
  | noPath hneg _ =>
    rw [hneg] at hcode
    cases hcode

theorem Reports.of_walk (h : Reports aa b d out) {vs : List Cell} {n : ℕ}
    (hw : Walk (Edge (successors aa)) b d vs n) :
    out.code = 0 ∧ ∃ m, out.res.count = m + 1 ∧ Least (Edge (successors aa)) b d m := by
  cases h with
  | path hcode hcount _ hleast _ => exact ⟨hcode, _, hcount, hleast⟩
  | noPath _ hnone => exact absurd hw (hnone vs n)

theorem Reports.of_least (h : Reports aa b d out) {n : ℕ}
    (hl : Least (Edge (successors aa)) b d n) : out.code = 0 ∧ out.res.count = n + 1 := by
  obtain ⟨vs, hw⟩ := hl.walk
  obtain ⟨hcode, m, hcount, hm⟩ := h.of_walk hw
  exact ⟨hcode, by rw [hcount, hm.unique hl]⟩

theorem Reports.code_cases (h : Reports aa b d out) : out.code = 0 ∨ out.code = -1 := by
  cases h with
  | path hcode => exact Or.inl hcode
  | noPath hcode => exact Or.inr hcode

theorem edge_back (u v : Cell) (k : ℕ) (hu : aa.Free u) (he : Edge (successors aa) u v k) :
    aa.Free v ∧ Edge (successors aa) v u k := by
  obtain ⟨hv, hadj⟩ := mem_successors.mp he.1
  exact ⟨hv, mem_successors.mpr ⟨hu, hadj.symm⟩, he.2⟩

theorem walk_end_free {vs : List Cell} {n : ℕ} (h : Walk (Edge (successors aa)) b d vs n) :
    d = b ∨ aa.Free d := by
  cases h with
  | nil => exact Or.inl rfl
  | snoc _ he => exact Or.inr (mem_successors.mp he.1).1

theorem least_back (hbd : aa.Free b ↔ aa.Free d) {n : ℕ}
    (h : Least (Edge (successors aa)) b d n) : Least (Edge (successors aa)) d b n := by
  obtain ⟨vs, hw⟩ := h.walk
  rcases walk_end_free hw with rfl | hd
  · exact h
  · exact h.symm edge_back (hbd.mpr hd)

theorem Reports.back (hbd : aa.Free b ↔ aa.Free d) (h : Reports aa b d out)
    (h' : Reports aa d b out') :
    out.code = out'.code ∧ (out.code = 0 → out.res.count = out'.res.count) := by
  cases h with
  | path hcode hcount _ hleast _ =>
    obtain ⟨hcode', hcount'⟩ := h'.of_least (least_back hbd hleast)
    exact ⟨by rw [hcode, hcode'], fun _ => by rw [hcount, hcount']⟩
  | noPath hneg hnone =>
    rcases h'.code_cases with hcode' | hneg'
    · obtain ⟨n, -, hl⟩ := h'.least hcode'
      obtain ⟨vs, hw⟩ := (least_back hbd.symm hl).walk
      exact absurd hw (hnone vs n)
    · refine ⟨by rw [hneg, hneg'], fun hcode => ?_⟩
      rw [hneg] at hcode
      cases hcode

theorem Holds.triangle (h : Holds aa data width height) {i j k : ℤ} (hij : Reply aa i j out)
    (hjk : Reply aa j k out') (hik : Reply aa i k out'') (hcode : out.code = 0)
    (hcode' : out'.code = 0) :
    out''.code = 0 ∧ out''.res.count + 1 ≤ out.res.count + out'.res.count := by
  have ha := h.loaded
  obtain ⟨b, d, hb, hd, rfl, rfl⟩ := hij.cells ha hcode
  obtain ⟨-, e, -, he, -, rfl⟩ := hjk.cells ha hcode'
  obtain ⟨n, hn, hbd⟩ := (hij.reports ha hb hd).least hcode
  obtain ⟨m, hm, hde⟩ := (hjk.reports ha hd he).least hcode'
  obtain ⟨vs, hvs⟩ := hbd.walk
  obtain ⟨ws, hws⟩ := hde.walk
  obtain ⟨hcode'', l, hl, hbe⟩ := (hik.reports ha hb he).of_walk (hvs.append hws)
  have := hbd.triangle hde hbe
  exact ⟨hcode'', by omega⟩

theorem Holds.through (h : Holds aa data width height) {i j k : ℤ} (hij : Reply aa i j out)
    (hjk : Reply aa j k out') (hik : Reply aa i k out'') (hcode : out''.code = 0)
    (hj : j ∈ out''.listed) :
    out.code = 0 ∧ out'.code = 0 ∧ out''.res.count + 1 = out.res.count + out'.res.count := by
  have ha := h.loaded
  obtain ⟨b, e, hb, he, rfl, rfl⟩ := hik.cells ha hcode
  cases hik.reports ha hb he with
  | noPath hneg _ =>
    rw [hneg] at hcode
    cases hcode
  | @path n vs _ hcount hw hleast hlisted =>
    rw [hlisted, List.mem_reverse, List.mem_map] at hj
    obtain ⟨d, hmem, rfl⟩ := hj
    have hd : aa.Inside d := walk_inside hb hw d hmem
    obtain ⟨m, l, hbd, hde, hsum⟩ := hleast.through hw hmem
    obtain ⟨hcode', hm⟩ := (hij.reports ha hb hd).of_least hbd
    obtain ⟨hcode'', hl⟩ := (hjk.reports ha hd he).of_least hde
    exact ⟨hcode', hcode'', by omega⟩

theorem Holds.back (h : Holds aa data width height) {i j : ℤ} (hij : Reply aa i j out)
    (hji : Reply aa j i out') (hwalls : data i.toNat = 1 ↔ data j.toNat = 1) :
    out.code = out'.code ∧ (out.code = 0 → out.res.count = out'.res.count) := by
  have ha := h.loaded
  by_cases hin : aa.InRange i ∧ aa.InRange j
  · obtain ⟨b, hb, rfl⟩ := exists_cell ha hin.1.1 hin.1.2
    obtain ⟨d, hd, rfl⟩ := exists_cell ha hin.2.1 hin.2.2
    refine Reports.back ?_ (hij.reports ha hb hd) (hji.reports ha hd hb)
    rw [h.free_iff hb, h.free_iff hd]
    exact not_congr hwalls
  · have hneg := reply_outside ha hin hij
    have hneg' := reply_outside ha (fun h => hin h.symm) hji
    refine ⟨by rw [hneg, hneg'], fun hcode => ?_⟩
    rw [hneg] at hcode
    cases hcode

theorem Holds.here (h : Holds aa data width height) {i : ℤ} (hii : Reply aa i i out)
    (hi : aa.InRange i) : out.code = 0 ∧ out.listed = [i] := by
  have ha := h.loaded
  obtain ⟨b, hb, rfl⟩ := exists_cell ha hi.1 hi.2
  cases hii.reports ha hb hb with
  | noPath _ hnone => exact absurd .nil (hnone [] 0)
  | @path n vs hcode hcount _ hleast hlisted =>
    have hzero : n = 0 := hleast.unique (.refl _ b)
    have hlen := congrArg List.length hlisted
    rw [Outcome.listed, Cells.read_length, hcount, hzero, List.length_reverse, List.length_map,
      List.length_cons] at hlen
    have hnil : vs = [] := List.length_eq_zero_iff.mp (by omega)
    exact ⟨hcode, by rw [hlisted, hnil]; rfl⟩

/-- Any calls on one loaded grid agree on its distances: a way through a third cell is no shorter,
it is as long if that cell is listed, the way back is as long, and a cell is at no distance from
itself. -/
theorem replies_distances (data : ℕ → ℤ) (width height : ℕ) (ta : AstarArray) (s₀ : AstarState)
    (hload : (hsAstarLoadData (some data) width height ta s₀).1 = 0) :
    let asked := Reply (hsAstarLoadData (some data) width height ta s₀).2.1
    (∀ i j k out out' out'', asked i j out → asked j k out' → asked i k out'' →
      (out.code = 0 → out'.code = 0 →
        out''.code = 0 ∧ out''.res.count + 1 ≤ out.res.count + out'.res.count) ∧
      (out''.code = 0 → j ∈ out''.listed →
        out.code = 0 ∧ out'.code = 0 ∧ out''.res.count + 1 = out.res.count + out'.res.count)) ∧
    (∀ i j out out', asked i j out → asked j i out' → (data i.toNat = 1 ↔ data j.toNat = 1) →
      out.code = out'.code ∧ (out.code = 0 → out.res.count = out'.res.count)) ∧
    ∀ i out, asked i i out → 0 ≤ i → i < ((width * height : ℕ) : ℤ) →
      out.code = 0 ∧ out.listed = [i] := by
  intro asked
  have h : Holds _ data width height := holds_of_load hload
  refine ⟨fun i j k out out' out'' hij hjk hik => ⟨?_, ?_⟩, fun i j out out' hij hji hwalls => ?_,
    fun i out hii h0 hi => ?_⟩
  · exact h.triangle hij hjk hik
  · exact h.through hij hjk hik
  · exact h.back hij hji hwalls
  · refine h.here hii ⟨h0, ?_⟩
    rw [h.width_eq, h.height_eq]
    exact hi

theorem corner_reply : ∃ out,
    Reply (hsAstarLoadData (some cornerWall) 2 2 .blank (.start fun _ => .zero)).2.1 0 3 out ∧
      out.code = 0 ∧ out.listed = [3, 2, 0] := by
  let load := hsAstarLoadData (some cornerWall) 2 2 .blank (.start fun _ => .zero)
  have hrun : (hsAstarFindPath 6 load.2.1 0 3 .blank load.2.2).map (fun out =>
      (out.code, out.listed)) = .ok (0, [3, 2, 0]) := by
    decide +kernel
  obtain ⟨out, ho, hout⟩ := exists_ok_of_map hrun
  obtain ⟨hcode, hlisted⟩ := Prod.mk.inj hout
  exact ⟨out, ⟨6, .blank, load.2.2, .load _ 2 2 _ (.start _), ho⟩, hcode, hlisted⟩

theorem replies_distances_corner :
    let asked := Reply (hsAstarLoadData (some cornerWall) 2 2 .blank (.start fun _ => .zero)).2.1
    ∃ out, asked 0 3 out ∧ out.res.count = 3 ∧ ∀ out' out'', asked 0 2 out' → asked 2 3 out'' →
      out'.res.count + out''.res.count = 4 := by
  obtain ⟨out, hout, hcode, hlisted⟩ := corner_reply
  have hcount : out.res.count = 3 := by
    rw [← Cells.read_length out.res.indexList 0 out.res.count]
    exact congrArg List.length hlisted
  refine ⟨out, hout, hcount, fun out' out'' hout' hout'' => ?_⟩
  have hsum := ((replies_distances cornerWall 2 2 .blank (.start fun _ => .zero) rfl).1 0 2 3 out'
    out'' out hout' hout'' hout).2 hcode (by rw [hlisted]; decide)
  omega

def Walled (data data' : ℕ → ℤ) (width height : ℕ) : Prop :=
  ∀ i < width * height, data i = 1 → data' i = 1

theorem Holds.edge_of_walled (h : Holds aa data width height) (h' : Holds aa' data' width height)
    (hmore : Walled data data' width height) (u v : Cell) (k : ℕ)
    (he : Edge (successors aa') u v k) : ∃ l ≤ k, Edge (successors aa) u v l := by
  obtain ⟨hv, hadj⟩ := mem_successors.mp he.1
  have hin : aa.Inside v := by
    rw [AstarArray.Inside, h.width_eq, h.height_eq, ← h'.width_eq, ← h'.height_eq]
    exact hv.1
  have hindex : aa.indexOf v = aa'.indexOf v := by
    rw [AstarArray.indexOf, AstarArray.indexOf, h.width_eq, h'.width_eq]
  have hlt : (aa.indexOf v).toNat < width * height := by
    have := indexOf_lt hin
    rw [h.width_eq, h.height_eq] at this
    rwa [AstarArray.indexOf, Int.toNat_natCast, h.width_eq]
  have hfree : aa.Free v := by
    rw [h.free_iff hin]
    intro hwall
    exact (h'.free_iff hv.1).mp hv (hindex ▸ hmore _ hlt hwall)
  exact ⟨k, le_rfl, mem_successors.mpr ⟨hfree, hadj⟩, he.2⟩

theorem Holds.edge_off_walls (h : Holds aa data width height) (h' : Holds aa' data' width height)
    (u v : Cell) (k : ℕ) (he : Edge (successors aa) u v k)
    (hv : data' (aa.indexOf v).toNat ≠ 1) : Edge (successors aa') u v k := by
  obtain ⟨hfree, hadj⟩ := mem_successors.mp he.1
  have hin : aa'.Inside v := by
    rw [AstarArray.Inside, h'.width_eq, h'.height_eq, ← h.width_eq, ← h.height_eq]
    exact hfree.1
  have hindex : aa.indexOf v = aa'.indexOf v := by
    rw [AstarArray.indexOf, AstarArray.indexOf, h.width_eq, h'.width_eq]
  refine ⟨mem_successors.mpr ⟨(h'.free_iff hin).mpr ?_, hadj⟩, he.2⟩
  rwa [← hindex]

theorem Holds.fewer_walls (h : Holds aa data width height) (h' : Holds aa' data' width height)
    (hmore : Walled data data' width height) (hout : Reports aa b d out)
    (hout' : Reports aa' b d out') (hcode : out'.code = 0) :
    out.code = 0 ∧ out.res.count ≤ out'.res.count := by
  obtain ⟨m, hm, hl'⟩ := hout'.least hcode
  obtain ⟨vs, hw'⟩ := hl'.walk
  obtain ⟨k, -, hw⟩ := hw'.cheaper (h.edge_of_walled h' hmore)
  obtain ⟨hzero, n, hn, hl⟩ := hout.of_walk hw
  have := hl'.cheaper (h.edge_of_walled h' hmore) hl
  exact ⟨hzero, by omega⟩

theorem Holds.walls_aside (h : Holds aa data width height) (h' : Holds aa' data' width height)
    (hmore : Walled data data' width height) (hb : aa.Inside b) (hout : Reports aa b d out)
    (hout' : Reports aa' b d out') (hcode : out.code = 0)
    (haside : ∀ k ∈ out.listed, k ≠ aa.indexOf b → data' k.toNat ≠ 1) :
    out'.code = 0 ∧ out'.res.count = out.res.count := by
  cases hout with
  | noPath hneg _ =>
    rw [hneg] at hcode
    cases hcode
  | @path n vs hzero hcount hw hleast hlisted =>
    have hnd : (b :: vs).Nodup :=
      hw.nodup_of_least (fun _ _ _ he => by rw [he.2]; exact Nat.one_pos) hleast.le
    have hvs : ∀ v ∈ vs, data' (aa.indexOf v).toNat ≠ 1 := by
      intro v hv
      have hmem := List.mem_cons_of_mem b hv
      refine haside _ ?_ fun heq => ?_
      · rw [hlisted, List.mem_reverse]
        exact List.mem_map_of_mem hmem
      · obtain rfl := indexOf_injective (walk_inside hb hw v hmem) hb heq
        exact (List.nodup_cons.mp hnd).1 hv
    have hw' := hw.within (h.edge_off_walls h') hvs
    obtain ⟨hcode', m, hm, hl'⟩ := hout'.of_walk hw'
    have hle := hl'.le vs n hw'
    have hge := hl'.cheaper (h.edge_of_walled h' hmore) hleast
    exact ⟨hcode', by omega⟩

/-- More walls make no path appear and none shorter, and leave the length of a path as it was if
none of them is on a cell that was listed. -/
theorem replies_walled (data data' : ℕ → ℤ) (width height : ℕ) (ta ta' : AstarArray)
    (s₀ s₀' : AstarState) (hload : (hsAstarLoadData (some data) width height ta s₀).1 = 0)
    (hload' : (hsAstarLoadData (some data') width height ta' s₀').1 = 0)
    (hmore : Walled data data' width height) (i j : ℤ) (out out' : Outcome)
    (hout : Reply (hsAstarLoadData (some data) width height ta s₀).2.1 i j out)
    (hout' : Reply (hsAstarLoadData (some data') width height ta' s₀').2.1 i j out') :
    (out'.code = 0 → out.code = 0 ∧ out.res.count ≤ out'.res.count) ∧
    (out.code = 0 → (∀ k ∈ out.listed, k ≠ i → data' k.toNat ≠ 1) →
      out'.code = 0 ∧ out'.res.count = out.res.count) := by
  have h := holds_of_load hload
  have h' := holds_of_load hload'
  generalize (hsAstarLoadData (some data) width height ta s₀).2.1 = aa at h hout
  generalize (hsAstarLoadData (some data') width height ta' s₀').2.1 = aa' at h' hout'
  have hinside : ∀ c, aa.Inside c → aa'.Inside c := fun c hc => by
    rw [AstarArray.Inside, h'.width_eq, h'.height_eq, ← h.width_eq, ← h.height_eq]
    exact hc
  have hindex : ∀ c, aa'.indexOf c = aa.indexOf c := fun c => by
    rw [AstarArray.indexOf, AstarArray.indexOf, h.width_eq, h'.width_eq]
  have hreports : ∀ {b d}, aa.Inside b → aa.Inside d → aa.indexOf b = i → aa.indexOf d = j →
      Reports aa b d out ∧ Reports aa' b d out' := by
    rintro b d hb hd rfl rfl
    rw [← hindex b, ← hindex d] at hout'
    exact ⟨hout.reports h.loaded hb hd, hout'.reports h'.loaded (hinside b hb) (hinside d hd)⟩
  have harea : aa'.width * aa'.height = aa.width * aa.height := by
    rw [h.width_eq, h.height_eq, h'.width_eq, h'.height_eq]
  constructor
  · intro hcode
    obtain ⟨hi, hj⟩ : aa'.InRange i ∧ aa'.InRange j := by
      by_contra hin
      rw [reply_outside h'.loaded hin hout'] at hcode
      cases hcode
    rw [AstarArray.InRange, harea] at hi hj
    obtain ⟨b, hb, hbi⟩ := exists_cell h.loaded hi.1 hi.2
    obtain ⟨d, hd, hdj⟩ := exists_cell h.loaded hj.1 hj.2
    obtain ⟨hr, hr'⟩ := hreports hb hd hbi hdj
    exact h.fewer_walls h' hmore hr hr' hcode
  · intro hcode haside
    obtain ⟨b, d, hb, hd, hbi, hdj⟩ := hout.cells h.loaded hcode
    obtain ⟨hr, hr'⟩ := hreports hb hd hbi hdj
    rw [← hbi] at haside
    exact h.walls_aside h' hmore hb hr hr' hcode haside

theorem replies_walled_corner :
    let load := hsAstarLoadData (some fun _ => 0) 2 2 .blank (.start fun _ => .zero)
    ∀ out, Reply load.2.1 0 3 out → out.code = 0 ∧ out.res.count ≤ 3 := by
  intro load out hout
  obtain ⟨out', hout', hcode', hlisted'⟩ := corner_reply
  have hcount' : out'.res.count = 3 := by
    rw [← Cells.read_length out'.res.indexList 0 out'.res.count]
    exact congrArg List.length hlisted'
  have hmore : Walled (fun _ => 0) cornerWall 2 2 := fun _ _ hwall => absurd hwall zero_ne_one
  obtain ⟨hcode, hle⟩ := (replies_walled (fun _ => 0) cornerWall 2 2 .blank .blank
    (.start fun _ => .zero) (.start fun _ => .zero) rfl rfl hmore 0 3 out out' hout hout').1 hcode'
  exact ⟨hcode, hle.trans_eq hcount'⟩

end HsCommon.Astar
