import HsCommon.Dijkstra.ShortestPath
import HsCommon.Library.Distances

/-!
# The weights as distances

The length that a call reports is the distance between its nodes, so what calls
on one list report fits together, and a list with more or lighter edges reports
no longer paths. The begin node itself is never reported as reached.
-/

namespace HsCommon.Dijkstra
open LabelSetting

variable {nodeList nodeList' : DijkstraNodeList} {maxNodeNum i j k : ℕ} {code code' code'' : ℤ}
  {out out' out'' : PathNodeCache}

def Reply (maxNodeNum : ℕ) (nodeList : DijkstraNodeList) (beginNode endNode : ℕ) (code : ℤ)
    (out : PathNodeCache) : Prop :=
  ∃ resultList, dijkstraGetPath maxNodeNum (some nodeList) beginNode endNode resultList =
    .ok (code, out)

inductive Reports (nodeList : DijkstraNodeList) (i j : ℕ) (code : ℤ) (out : PathNodeCache) :
    Prop where
  | path {n : ℕ} : code = 0 → i ≠ j → out.weightsLen = n →
      Walk (NodeEdge nodeList) i j out.path n → Least (NodeEdge nodeList) i j n →
      Reports nodeList i j code out
  | noPath : code = -1 → (∀ vs n, Walk (NodeEdge nodeList) i j vs n → i = j) →
      Reports nodeList i j code out

theorem Settled.reports {S : Set ℕ} {caches : ℕ → PathNodeCache}
    (h : Settled nodeList i S caches) (hj : nodeList.Has j)
    (hall : ∀ v, nodeList.Has v → Found i caches v → v ∈ S) (resultList : PathNodeCache) :
    if (caches (j - 1)).weightsLen = 0 then Reports nodeList i j (-1) resultList
    else Reports nodeList i j 0 (caches (j - 1)) := by
  by_cases hz : (caches (j - 1)).weightsLen = 0
  · rw [if_pos hz]
    refine .noPath rfl fun vs c hw => ?_
    by_contra hne
    obtain ⟨a, ha, -⟩ :=
      h.labels.settled_of_walk (fun y d hy => hy.2.1 (hall y hy.1 hy.2.2.1)) hw
    have := (h.weightsLen_pos_iff hj (Ne.symm hne)).mpr (h.found j ha)
    omega
  · rw [if_neg hz]
    have hne : j ≠ i := by
      rintro rfl
      exact hz h.begin_zero.2
    have hf : Found i caches j := by
      rcases h.cache j hj with ⟨-, h0⟩ | ⟨-, hpos⟩
      · exact absurd h0 hz
      · exact (h.weightsLen_pos_iff hj hne).mp hpos
    have hw := h.walk j hj hf
    refine .path rfl hne.symm (h.label_cast hj).symm hw ⟨⟨_, hw⟩, fun vs d hd => ?_⟩
    exact h.labels.least j _ vs d ⟨hall j hj hf, rfl⟩ hd

theorem Reply.reports (hmax : maxNodeNum ≤ 65535) (hlen : nodeList.len ≤ maxNodeNum)
    (hi : nodeList.Has i) (hj : nodeList.Has j) (h : Reply maxNodeNum nodeList i j code out) :
    Reports nodeList i j code out := by
  obtain ⟨resultList, hrun⟩ := h
  rw [dijkstraGetPath_eq hmax hlen hi hj] at hrun
  rcases mainLoop_spec hmax hlen hi nodeList.len (Nat.zero_add _) (head_start hi) with
    hov | ⟨s, S, hok, hset, hall⟩
  · rw [hov] at hrun
    cases hrun
  · have hreports := hset.reports hj hall resultList
    rw [hok] at hrun
    simp only [bind, Except.bind] at hrun
    split_ifs at hrun hreports <;>
    · obtain ⟨rfl, rfl⟩ := Prod.mk.inj (Except.ok.inj hrun)
      exact hreports

theorem reply_outside (hout : ¬ (nodeList.Has i ∧ nodeList.Has j))
    (h : Reply maxNodeNum nodeList i j code out) : code = -1 := by
  obtain ⟨resultList, hrun⟩ := h
  simp only [DijkstraNodeList.Has] at hout
  have hrange : i = 0 ∨ i > nodeList.len ∨ j = 0 ∨ j > nodeList.len := by omega
  rw [dijkstraGetPath, if_pos hrange] at hrun
  exact (Prod.mk.inj (Except.ok.inj hrun)).1.symm

theorem Reply.nodes (h : Reply maxNodeNum nodeList i j code out) (hcode : code = 0) :
    nodeList.Has i ∧ nodeList.Has j := by
  by_contra hout
  rw [reply_outside hout h] at hcode
  cases hcode

theorem Reports.least (h : Reports nodeList i j code out) (hcode : code = 0) :
    ∃ n : ℕ, out.weightsLen = n ∧ Walk (NodeEdge nodeList) i j out.path n ∧
      Least (NodeEdge nodeList) i j n := by
  cases h with
  | path _ _ hlen hw hleast => exact ⟨_, hlen, hw, hleast⟩
  | noPath hneg _ =>
    rw [hneg] at hcode
    cases hcode

theorem Reports.of_walk (h : Reports nodeList i j code out) (hij : i ≠ j) {vs : List ℕ} {n : ℕ}
    (hw : Walk (NodeEdge nodeList) i j vs n) :
    code = 0 ∧ ∃ m : ℕ, out.weightsLen = m ∧ Least (NodeEdge nodeList) i j m := by
  cases h with
  | path hcode _ hlen _ hleast => exact ⟨hcode, _, hlen, hleast⟩
  | noPath _ hnone => exact absurd (hnone vs n hw) hij

theorem Reports.of_least (h : Reports nodeList i j code out) (hij : i ≠ j) {n : ℕ}
    (hl : Least (NodeEdge nodeList) i j n) : code = 0 ∧ out.weightsLen = n := by
  obtain ⟨vs, hw⟩ := hl.walk
  obtain ⟨hcode, m, hlen, hm⟩ := h.of_walk hij hw
  exact ⟨hcode, by rw [hlen, hm.unique hl]⟩

def DijkstraNodeList.TwoWay (nodeList : DijkstraNodeList) : Prop :=
  ∀ u v, nodeList.Has u → nodeList.Has v →
    (nodeList.nodes (u - 1)).weight (v - 1) = (nodeList.nodes (v - 1)).weight (u - 1)

theorem least_back (hsym : nodeList.TwoWay) {n : ℕ} (h : Least (NodeEdge nodeList) i j n) :
    Least (NodeEdge nodeList) j i n := by
  refine @Least.symm ℕ _ i j n (fun _ => True) (fun u v k _ he => ⟨trivial, ?_⟩) trivial h
  obtain ⟨hu, hv, hk, hw⟩ := he
  exact ⟨hv, hu, hk, (hsym v u hv hu).trans hw⟩

theorem Reports.back (hsym : nodeList.TwoWay) (h : Reports nodeList i j code out)
    (h' : Reports nodeList j i code' out') :
    code = code' ∧ (code = 0 → out.weightsLen = out'.weightsLen) := by
  cases h with
  | path hcode hne hlen _ hleast =>
    obtain ⟨hcode', hlen'⟩ := h'.of_least hne.symm (least_back hsym hleast)
    exact ⟨by rw [hcode, hcode'], fun _ => by rw [hlen, hlen']⟩
  | noPath hneg hnone =>
    cases h' with
    | path _ hne _ _ hleast =>
      obtain ⟨vs, hw⟩ := (least_back hsym hleast).walk
      exact absurd (hnone vs _ hw) hne.symm
    | noPath hneg' _ =>
      refine ⟨by rw [hneg, hneg'], fun hcode => ?_⟩
      rw [hneg] at hcode
      cases hcode

theorem Reply.triangle (hmax : maxNodeNum ≤ 65535) (hlen : nodeList.len ≤ maxNodeNum)
    (hij : Reply maxNodeNum nodeList i j code out)
    (hjk : Reply maxNodeNum nodeList j k code' out')
    (hik : Reply maxNodeNum nodeList i k code'' out'') (hne : i ≠ k) (hcode : code = 0)
    (hcode' : code' = 0) :
    code'' = 0 ∧ out''.weightsLen ≤ out.weightsLen + out'.weightsLen := by
  obtain ⟨hi, hj⟩ := hij.nodes hcode
  obtain ⟨-, hk⟩ := hjk.nodes hcode'
  obtain ⟨n, hn, hw, hleast⟩ := (hij.reports hmax hlen hi hj).least hcode
  obtain ⟨m, hm, hw', hleast'⟩ := (hjk.reports hmax hlen hj hk).least hcode'
  obtain ⟨hcode'', l, hl, hleast''⟩ :=
    (hik.reports hmax hlen hi hk).of_walk hne (hw.append hw')
  have := hleast.triangle hleast' hleast''
  exact ⟨hcode'', by omega⟩

theorem walk_nodes (hi : nodeList.Has i) {vs : List ℕ} {n : ℕ}
    (h : Walk (NodeEdge nodeList) i j vs n) : ∀ v ∈ i :: vs, nodeList.Has v := by
  induction h with
  | nil => simpa using hi
  | snoc _ he ih =>
    intro v hv
    rw [← List.cons_append, List.mem_append, List.mem_singleton] at hv
    rcases hv with hv | rfl
    · exact ih v hv
    · exact he.2.1

theorem Reply.through (hmax : maxNodeNum ≤ 65535) (hlen : nodeList.len ≤ maxNodeNum)
    (hij : Reply maxNodeNum nodeList i j code out)
    (hjk : Reply maxNodeNum nodeList j k code' out')
    (hik : Reply maxNodeNum nodeList i k code'' out'') (hcode : code'' = 0)
    (hj : j ∈ out''.path) (hjk' : j ≠ k) :
    code = 0 ∧ code' = 0 ∧ out''.weightsLen = out.weightsLen + out'.weightsLen := by
  obtain ⟨hi, hk⟩ := hik.nodes hcode
  obtain ⟨n, hn, hw, hleast⟩ := (hik.reports hmax hlen hi hk).least hcode
  have hmem : j ∈ i :: out''.path := List.mem_cons_of_mem i hj
  have hjh := walk_nodes hi hw j hmem
  obtain ⟨m, l, hl, hl', rfl⟩ := hleast.through hw hmem
  have hij' : i ≠ j := by
    rintro rfl
    -- the begin node is not on the path behind itself
    have hnd := hw.nodup_of_least (fun _ _ _ he => he.pos) hleast.le
    exact (List.nodup_cons.mp hnd).1 hj
  obtain ⟨hcode', hm⟩ := (hij.reports hmax hlen hi hjh).of_least hij' hl
  obtain ⟨hcode'', hl⟩ := (hjk.reports hmax hlen hjh hk).of_least hjk' hl'
  refine ⟨hcode', hcode'', ?_⟩
  rw [hn, hm, hl, Nat.cast_add]

/-- Any calls on one list agree on its distances: a way through a third node is no lighter, it is
as light if the node is on the path reported, and the way back is as light if the list says the
same about both directions. -/
theorem replies_weights (maxNodeNum : ℕ) (hmax : maxNodeNum ≤ 65535)
    (nodeList : DijkstraNodeList) (hlen : nodeList.len ≤ maxNodeNum) :
    let asked := Reply maxNodeNum nodeList
    (∀ i j k code out code' out' code'' out'', asked i j code out → asked j k code' out' →
      asked i k code'' out'' →
      (code = 0 → code' = 0 → i ≠ k →
        code'' = 0 ∧ out''.weightsLen ≤ out.weightsLen + out'.weightsLen) ∧
      (code'' = 0 → j ∈ out''.path → j ≠ k →
        code = 0 ∧ code' = 0 ∧ out''.weightsLen = out.weightsLen + out'.weightsLen)) ∧
    (nodeList.TwoWay → ∀ i j code out code' out', asked i j code out → asked j i code' out' →
      code = code' ∧ (code = 0 → out.weightsLen = out'.weightsLen)) := by
  intro asked
  refine ⟨fun i j k code out code' out' code'' out'' hij hjk hik => ⟨?_, ?_⟩,
    fun hsym i j code out code' out' hij hji => ?_⟩
  · exact fun hcode hcode' hne => hij.triangle hmax hlen hjk hik hne hcode hcode'
  · exact fun hcode hj hjk' => hij.through hmax hlen hjk hik hcode hj hjk'
  · by_cases hin : nodeList.Has i ∧ nodeList.Has j
    · exact (hij.reports hmax hlen hin.1 hin.2).back hsym (hji.reports hmax hlen hin.2 hin.1)
    · have hneg := reply_outside hin hij
      have hneg' := reply_outside (fun h => hin h.symm) hji
      refine ⟨by rw [hneg, hneg'], fun hcode => ?_⟩
      rw [hneg] at hcode
      cases hcode

def threeNodes : DijkstraNodeList :=
  ⟨fun i => ⟨i + 1, fun j => if (i, j) = (0, 1) then 2 else if (i, j) = (1, 2) then 3
    else if (i, j) = (0, 2) then 10 else 0⟩, 3⟩

theorem replies_weights_threeNodes :
    ∃ out'', Reply 5 threeNodes 1 3 0 out'' ∧ out''.weightsLen = 5 ∧ ∀ code out code' out',
      Reply 5 threeNodes 1 2 code out → Reply 5 threeNodes 2 3 code' out' →
        code = 0 ∧ code' = 0 ∧ out.weightsLen + out'.weightsLen = 5 := by
  have hrun : (dijkstraGetPath 5 (some threeNodes) 1 3 .zero).map (fun r =>
      (r.1, r.2.weightsLen, r.2.path)) = .ok (0, 5, [2, 3]) := by
    decide +kernel
  obtain ⟨⟨code'', out''⟩, hok, hvalues⟩ := exists_ok_of_map hrun
  obtain ⟨rfl, hlen, hpath⟩ : code'' = 0 ∧ out''.weightsLen = 5 ∧ out''.path = [2, 3] := by
    simpa using hvalues
  refine ⟨out'', ⟨.zero, hok⟩, hlen, fun code out code' out' hout hout' => ?_⟩
  obtain ⟨hcode, hcode', hsum⟩ := ((replies_weights 5 (by decide) threeNodes (by decide)).1 1 2 3
    code out code' out' 0 out'' hout hout' ⟨.zero, hok⟩).2 rfl (by rw [hpath]; decide) (by decide)
  exact ⟨hcode, hcode', by omega⟩

structure Lighter (nodeList nodeList' : DijkstraNodeList) : Prop where
  len : nodeList.len ≤ nodeList'.len
  weight : ∀ u v, nodeList.Has u → nodeList.Has v →
    0 < (nodeList.nodes (u - 1)).weight (v - 1) →
      0 < (nodeList'.nodes (u - 1)).weight (v - 1) ∧
        (nodeList'.nodes (u - 1)).weight (v - 1) ≤ (nodeList.nodes (u - 1)).weight (v - 1)

theorem Lighter.has (h : Lighter nodeList nodeList') {v : ℕ} (hv : nodeList.Has v) :
    nodeList'.Has v :=
  ⟨hv.1, hv.2.trans h.len⟩

theorem Lighter.edge (h : Lighter nodeList nodeList') (u v k : ℕ) (he : NodeEdge nodeList u v k) :
    ∃ l ≤ k, NodeEdge nodeList' u v l := by
  obtain ⟨hu, hv, hk, hw⟩ := he
  obtain ⟨hpos, hle⟩ := h.weight u v hu hv (by omega)
  refine ⟨((nodeList'.nodes (u - 1)).weight (v - 1)).toNat, by omega, h.has hu, h.has hv, by omega,
    ?_⟩
  exact (Int.toNat_of_nonneg hpos.le).symm

/-- Adding nodes or edges and making edges lighter loses no path and makes none heavier. -/
theorem replies_lighter (maxNodeNum : ℕ) (hmax : maxNodeNum ≤ 65535)
    (nodeList nodeList' : DijkstraNodeList) (hlen : nodeList'.len ≤ maxNodeNum)
    (hlight : Lighter nodeList nodeList') (i j : ℕ) (code code' : ℤ) (out out' : PathNodeCache)
    (h : Reply maxNodeNum nodeList i j code out) (h' : Reply maxNodeNum nodeList' i j code' out')
    (hcode : code = 0) : code' = 0 ∧ out'.weightsLen ≤ out.weightsLen := by
  obtain ⟨hi, hj⟩ := h.nodes hcode
  have hreports := h.reports hmax (hlight.len.trans hlen) hi hj
  obtain ⟨n, hn, hw, hleast⟩ := hreports.least hcode
  have hne : i ≠ j := by
    cases hreports with
    | path _ hne => exact hne
    | noPath hneg _ =>
      rw [hneg] at hcode
      cases hcode
  obtain ⟨m, -, hw'⟩ := hw.cheaper hlight.edge
  obtain ⟨hcode', l, hl, hleast'⟩ :=
    (h'.reports hmax hlen (hlight.has hi) (hlight.has hj)).of_walk hne hw'
  have := hleast.cheaper hlight.edge hleast'
  exact ⟨hcode', by omega⟩

theorem lighter_oneEdge : Lighter oneEdge threeNodes := by
  refine ⟨by decide, fun u v hu hv hpos => ?_⟩
  obtain ⟨hu0, hv1⟩ : u - 1 = 0 ∧ v - 1 = 1 := by
    by_contra hne
    simp only [oneEdge, if_neg hne, lt_self_iff_false] at hpos
  rw [hu0, hv1]
  decide

theorem replies_lighter_oneEdge :
    ∃ out, Reply 5 oneEdge 1 2 0 out ∧ ∀ code' out', Reply 5 threeNodes 1 2 code' out' →
      code' = 0 ∧ out'.weightsLen ≤ out.weightsLen := by
  have hrun : (dijkstraGetPath 5 (some oneEdge) 1 2 .zero).map Prod.fst = .ok 0 := by
    decide +kernel
  obtain ⟨⟨code, out⟩, hok, rfl⟩ := exists_ok_of_map hrun
  refine ⟨out, ⟨.zero, hok⟩, fun code' out' hout' => ?_⟩
  exact replies_lighter 5 (by decide) oneEdge threeNodes (by decide) lighter_oneEdge 1 2 0 code' out
    out' ⟨.zero, hok⟩ hout' rfl

end HsCommon.Dijkstra
