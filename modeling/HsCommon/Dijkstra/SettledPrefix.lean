import HsCommon.Dijkstra.Overflow
import HsCommon.Library.Outcome
import HsCommon.Library.Runs

/-!
# The settled nodes in the list of used nodes

The main loop as a run of iterations, each labelled with the node it settles. At
the head of an iteration the labels so far are the front of the list of used nodes,
nearest first, and a cache that belongs to one of them is never written again: an
iteration writes the caches of the nodes behind its own only.
-/

open Outcome

namespace HsCommon.Dijkstra
open LabelSetting Transition

variable {maxNodeNum listLen b x : ℕ} {nodeList : DijkstraNodeList} {s s' : LoopState}
  {used : ℕ → ℕ} {caches caches' : ℕ → PathNodeCache} {vs : List ℕ}

def listLength (maxNodeNum : ℕ) (nodeList : DijkstraNodeList) : ℕ :=
  if nodeList.len < maxNodeNum % 65536 then nodeList.len else maxNodeNum % 65536

/-- One iteration of the main loop, which settles `v`. -/
structure Iteration (maxNodeNum : ℕ) (nodeList : DijkstraNodeList) (listLen : ℕ) (s : LoopState)
    (v : ℕ) (s' : LoopState) : Prop where
  lt : s.i < listLen
  node : s.useNode = v
  ne : v ≠ 0
  round : round maxNodeNum nodeList listLen s = .ok s'

theorem listLength_eq (hmax : maxNodeNum ≤ 65535) (hlen : nodeList.len ≤ maxNodeNum) :
    listLength maxNodeNum nodeList = nodeList.len := by
  rw [listLength, Nat.mod_eq_of_lt (by omega)]
  split_ifs <;> omega

theorem mainLoop_run {n : ℕ} (hn : s.i + n ≤ listLen)
    (h : mainLoop maxNodeNum nodeList listLen n s = .ok s') :
    ∃ vs, Run (Iteration maxNodeNum nodeList listLen) s vs s' := by
  induction n generalizing s with
  | zero =>
    obtain rfl := Except.ok.inj h
    exact ⟨[], .nil⟩
  | succ n ih =>
    rw [mainLoop] at h
    by_cases hx : s.useNode = 0
    · rw [if_pos hx] at h
      obtain rfl := Except.ok.inj h
      exact ⟨[], .nil⟩
    · rw [if_neg hx] at h
      obtain ⟨t, ht, h⟩ := exists_of_bind h
      have hi : t.i = s.i + 1 := by
        obtain ⟨caches, -, hround⟩ := exists_of_bind ht
        rw [← Except.ok.inj hround]
      obtain ⟨vs, hvs⟩ := ih (by omega) h
      exact ⟨s.useNode :: vs, hvs.cons ⟨by omega, rfl, hx, ht⟩⟩

theorem relax_keep {v w : ℕ} (h : relax maxNodeNum nodeList x caches v = .ok caches')
    (hw : w ≠ v - 1) : caches' w = caches w := by
  unfold relax at h
  dsimp only at h
  by_cases hweight : (nodeList.nodes (x - 1)).weight (v - 1) ≤ 0
  · rw [if_pos hweight] at h
    rw [← Except.ok.inj h]
  · rw [if_neg hweight] at h
    obtain ⟨sum, -, h⟩ := exists_of_bind h
    split at h
    · split at h
      · rw [← Except.ok.inj h, Function.update_of_ne hw]
      · cases h
    · rw [← Except.ok.inj h]

theorem relaxAll_keep {ns : List ℕ} {w : ℕ}
    (h : relaxAll maxNodeNum nodeList x ns caches = .ok caches') (hw : ∀ v ∈ ns, w ≠ v - 1) :
    caches' w = caches w := by
  induction ns generalizing caches with
  | nil => rw [← Except.ok.inj h]
  | cons v ns ih =>
    obtain ⟨between, hv, hrest⟩ := exists_of_bind h
    rw [ih hrest fun u hu => hw u (List.mem_cons_of_mem _ hu),
      relax_keep hv (hw v List.mem_cons_self)]

theorem round_keep {w : ℕ} (h : round maxNodeNum nodeList listLen s = .ok s')
    (hw : ∀ v ∈ restNodes s'.usedNodesId listLen s.i, w ≠ v - 1) :
    s'.allPathCache w = s.allPathCache w := by
  obtain ⟨caches, hcaches, hround⟩ := exists_of_bind h
  obtain rfl := Except.ok.inj hround
  exact relaxAll_keep hcaches hw

theorem Listing.round_keep {v : ℕ} (h : Listing s'.usedNodesId listLen)
    (hround : round maxNodeNum nodeList listLen s = .ok s') (hv : 1 ≤ v)
    (hfront : v ∈ firstNodes s'.usedNodesId (s.i + 1)) :
    s'.allPathCache (v - 1) = s.allPathCache (v - 1) := by
  apply Dijkstra.round_keep hround
  intro w hw he
  obtain ⟨hin, hbehind⟩ := h.mem_restNodes_iff.mp hw
  obtain rfl : v = w := by omega
  exact hbehind hfront

theorem walk_has (hb : nodeList.Has b) {v c : ℕ} {ws : List ℕ}
    (h : Walk (NodeEdge nodeList) b v ws c) : nodeList.Has v := by
  cases h with
  | nil => exact hb
  | snoc _ he => exact he.2.1

structure Progress (nodeList : DijkstraNodeList) (b : ℕ) (vs : List ℕ) (s : LoopState) :
    Prop where
  head : Head nodeList b s
  count : s.i = vs.length
  front : (List.range s.i).map s.usedNodesId = vs
  distance : ∀ v ∈ vs, Distance nodeList b v (label s.allPathCache v)
  sorted : vs.Pairwise fun u v => label s.allPathCache u ≤ label s.allPathCache v
  nearer : ∀ u ∈ vs, ∀ v, v ∉ firstNodes s.usedNodesId s.i → ∀ ws c,
    Walk (NodeEdge nodeList) b v ws c → label s.allPathCache u ≤ c

theorem mem_firstNodes {i v : ℕ} : v ∈ firstNodes used i ↔ v ∈ (List.range i).map used := by
  rw [List.mem_map]
  constructor
  · rintro ⟨j, hj, rfl⟩
    exact ⟨j, List.mem_range.mpr hj, rfl⟩
  · rintro ⟨j, hj, rfl⟩
    exact ⟨j, List.mem_range.mp hj, rfl⟩

theorem front_swap (used : ℕ → ℕ) {i k : ℕ} (hik : i ≤ k) :
    (List.range (i + 1)).map (used ∘ Equiv.swap i k) = (List.range i).map used ++ [used k] := by
  rw [List.range_succ, List.map_append, List.map_singleton, Function.comp_apply,
    Equiv.swap_apply_left]
  congr 1
  apply List.map_congr_left
  intro j hj
  have hlt := List.mem_range.mp hj
  rw [Function.comp_apply, Equiv.swap_apply_of_ne_of_ne (by omega) (by omega)]

theorem progress_start (hb : nodeList.Has b) :
    Progress nodeList b [] (startState nodeList.len b) where
  head := head_start hb
  count := rfl
  front := rfl
  distance v hv := by cases hv
  sorted := List.Pairwise.nil
  nearer u hu := by cases hu

theorem Progress.iteration (hmax : maxNodeNum ≤ 65535) (hlen : nodeList.len ≤ maxNodeNum)
    (hb : nodeList.Has b) {v : ℕ} (h : Progress nodeList b vs s)
    (hs : Iteration maxNodeNum nodeList nodeList.len s v s') :
    Progress nodeList b (vs ++ [v]) s' ∧
      ∀ u ∈ vs ++ [v], s'.allPathCache (u - 1) = s.allPathCache (u - 1) := by
  obtain ⟨-, rfl, hx0, hround⟩ := hs
  obtain ⟨hx, hxS, hxf, hmin⟩ := h.head.next.resolve_left fun h => hx0 h.1
  obtain ⟨k, hik, hk, hxk⟩ := h.head.exists_place hx0
  rcases h.head.round_at hmax hlen hb hx0 hik hk hxk with ⟨he, -⟩ | ⟨caches', he, -, hhead'⟩
  · rw [he] at hround
    cases hround
  · obtain rfl := Except.ok.inj (he.symm.trans hround)
    have hset := h.head.settled
    have hfront : (List.range (s.i + 1)).map (s.usedNodesId ∘ Equiv.swap s.i k) =
        vs ++ [s.useNode] := by
      rw [front_swap _ hik, h.front, hxk]
    have hold : ∀ u ∈ vs, u ∈ firstNodes s.usedNodesId s.i := by
      intro u hu
      rw [mem_firstNodes, h.front]
      exact hu
    have hkeep : ∀ u ∈ vs ++ [s.useNode], caches' (u - 1) = s.allPathCache (u - 1) := by
      intro u hu
      have hhas : 1 ≤ u := by
        rcases List.mem_append.mp hu with hu | hu
        · exact (hset.sub u (hold u hu)).1
        · rw [List.mem_singleton.mp hu]
          exact hx.1
      apply hhead'.listing.round_keep hround hhas
      rw [mem_firstNodes, hfront]
      exact hu
    have hlabel : ∀ u ∈ vs ++ [s.useNode], label caches' u = label s.allPathCache u := by
      intro u hu
      rw [label, label, hkeep u hu]
    have hdist := hset.distance hx hxS hxf hmin
    refine ⟨⟨hhead', ?_, hfront, ?_, ?_, ?_⟩, hkeep⟩
    · rw [List.length_append, List.length_singleton, ← h.count]
    · intro u hu
      dsimp only
      rw [hlabel u hu]
      rcases List.mem_append.mp hu with hu | hu
      · exact h.distance u hu
      · rw [List.mem_singleton.mp hu]
        exact hdist
    · have hsorted : (vs ++ [s.useNode]).Pairwise fun u v =>
          label s.allPathCache u ≤ label s.allPathCache v := by
        rw [List.pairwise_append]
        refine ⟨h.sorted, List.pairwise_singleton _ _, ?_⟩
        intro u hu w hw
        rw [List.mem_singleton.mp hw]
        obtain ⟨ws, hwalk⟩ := hdist.walk
        exact h.nearer u hu _ hxS ws _ hwalk
      apply hsorted.imp_of_mem
      intro u w hu hw hle
      dsimp only
      rwa [hlabel u hu, hlabel w hw]
    · intro u hu w hwS ws c hwalk
      dsimp only at hwS ⊢
      rw [firstNodes_swap _ hik, Set.mem_insert_iff, not_or] at hwS
      rw [hlabel u hu]
      rcases List.mem_append.mp hu with hu | hu
      · exact h.nearer u hu w hwS.2 ws c hwalk
      · rw [List.mem_singleton.mp hu]
        rcases hset.farther_or_found hmin hwS.2 hwalk with hfar | ⟨hf, hle⟩
        · exact hfar.le
        · exact (hmin w (walk_has hb hwalk) hwS.2 hf).trans hle

theorem run_progress (hmax : maxNodeNum ≤ 65535) (hlen : nodeList.len ≤ maxNodeNum)
    (hb : nodeList.Has b)
    (h : Run (Iteration maxNodeNum nodeList nodeList.len) (startState nodeList.len b) vs s) :
    Progress nodeList b vs s := by
  induction h with
  | nil => exact progress_start hb
  | snoc _ hs ih => exact (ih.iteration hmax hlen hb hs).1

theorem Progress.run (hmax : maxNodeNum ≤ 65535) (hlen : nodeList.len ≤ maxNodeNum)
    (hb : nodeList.Has b) {ws : List ℕ} (h : Progress nodeList b vs s)
    (hrun : Run (Iteration maxNodeNum nodeList nodeList.len) s ws s') :
    Progress nodeList b (vs ++ ws) s' ∧
      ∀ u ∈ vs, s'.allPathCache (u - 1) = s.allPathCache (u - 1) := by
  induction hrun with
  | nil =>
    rw [List.append_nil]
    exact ⟨h, fun _ _ => rfl⟩
  | snoc _ hs ih =>
    obtain ⟨hprogress, hkept⟩ := ih
    obtain ⟨hnext, hkeep⟩ := hprogress.iteration hmax hlen hb hs
    rw [← List.append_assoc]
    refine ⟨hnext, fun u hu => ?_⟩
    rw [hkeep u (List.mem_append_left _ (List.mem_append_left _ hu)), hkept u hu]

theorem Listing.perm {len : ℕ} (h : Listing used len) :
    ((List.range len).map used).Perm (List.range' 1 len) := by
  have hnodup : ((List.range len).map used).Nodup := by
    apply List.Nodup.map_on _ List.nodup_range
    intro j hj k hk he
    exact h.inj j (List.mem_range.mp hj) k (List.mem_range.mp hk) he
  apply (List.perm_ext_iff_of_nodup hnodup List.nodup_range').mpr
  intro v
  rw [List.mem_map, List.mem_range'_1]
  constructor
  · rintro ⟨j, hj, rfl⟩
    have := h.range j (List.mem_range.mp hj)
    omega
  · intro hv
    obtain ⟨j, hj, hjv⟩ := h.surj v hv.1 (by omega)
    exact ⟨j, List.mem_range.mpr hj, hjv⟩

/-- With `vs` settled so far, the list of used nodes holds all nodes and begins with those of `vs`,
nearest first, at the distances that their caches say. -/
structure SettledPrefix (nodeList : DijkstraNodeList) (b : ℕ) (vs : List ℕ) (s : LoopState) :
    Prop where
  count : s.i = vs.length
  perm : ((List.range nodeList.len).map s.usedNodesId).Perm (List.range' 1 nodeList.len)
  front : (List.range s.i).map s.usedNodesId = vs
  distance : ∀ v ∈ vs, ∃ a : ℕ, (s.allPathCache (v - 1)).weightsLen = a ∧ Distance nodeList b v a
  sorted : vs.Pairwise fun u v =>
    (s.allPathCache (u - 1)).weightsLen ≤ (s.allPathCache (v - 1)).weightsLen

theorem Progress.settledPrefix (h : Progress nodeList b vs s) : SettledPrefix nodeList b vs s := by
  have hset := h.head.settled
  have hcast : ∀ v ∈ vs, ((label s.allPathCache v : ℕ) : ℤ) =
      (s.allPathCache (v - 1)).weightsLen := by
    intro v hv
    apply hset.label_cast (hset.sub v _)
    rw [mem_firstNodes, h.front]
    exact hv
  refine ⟨h.count, h.head.listing.perm, h.front, ?_, ?_⟩
  · intro v hv
    exact ⟨label s.allPathCache v, (hcast v hv).symm, h.distance v hv⟩
  · apply h.sorted.imp_of_mem
    intro u v hu hv hle
    rw [← hcast u hu, ← hcast v hv]
    exact Int.ofNat_le.mpr hle

/-- At every head of the main loop the settled nodes are the front of the list of used nodes in the
order of their distance, and no later iteration changes the cache of one of them. -/
theorem getPath_settledPrefix (hmax : maxNodeNum ≤ 65535) (hlen : nodeList.len ≤ maxNodeNum)
    (hb : nodeList.Has b)
    (h : Run (Iteration maxNodeNum nodeList (listLength maxNodeNum nodeList))
      (startState (listLength maxNodeNum nodeList) b) vs s) :
    SettledPrefix nodeList b vs s ∧
      ∀ ws s', Run (Iteration maxNodeNum nodeList (listLength maxNodeNum nodeList)) s ws s' →
        ∀ v ∈ vs, s'.allPathCache (v - 1) = s.allPathCache (v - 1) := by
  rw [listLength_eq hmax hlen] at h ⊢
  have hprogress := run_progress hmax hlen hb h
  exact ⟨hprogress.settledPrefix, fun _ _ hrun => (hprogress.run hmax hlen hb hrun).2⟩

theorem getPath_settledPrefix_oneEdge :
    ∃ s, Run (Iteration 5 oneEdge (listLength 5 oneEdge)) (startState (listLength 5 oneEdge) 1)
        [1] s ∧ s.useNode = 2 ∧ SettledPrefix oneEdge 1 [1] s := by
  have hnext : (Dijkstra.round 5 oneEdge (listLength 5 oneEdge)
      (startState (listLength 5 oneEdge) 1)).map LoopState.useNode = .ok 2 := by decide +kernel
  obtain ⟨s, hround, hnode⟩ := exists_ok_of_map hnext
  have hrun : Run (Iteration 5 oneEdge (listLength 5 oneEdge))
      (startState (listLength 5 oneEdge) 1) ([] ++ [1]) s :=
    Run.nil.snoc ⟨by decide, rfl, Nat.one_ne_zero, hround⟩
  exact ⟨s, hrun, hnode,
    (getPath_settledPrefix (by decide) (by decide) ⟨le_rfl, by decide⟩ hrun).1⟩

theorem oneEdge_walk {v c : ℕ} {ws : List ℕ} (h : Walk (NodeEdge oneEdge) 1 v ws c) :
    (v = 1 ∧ c = 0) ∨ (v = 2 ∧ c = 7) := by
  induction h with
  | nil => exact Or.inl ⟨rfl, rfl⟩
  | @snoc u v ws c k _ he ih =>
    obtain ⟨⟨hu, -⟩, ⟨hv, -⟩, hk, hweight⟩ := he
    simp only [oneEdge] at hweight
    split_ifs at hweight with hedge
    · rcases ih with ⟨-, rfl⟩ | ⟨rfl, -⟩
      · right
        omega
      · omega
    · omega

theorem settledPrefix_wrapped :
    ¬ ∀ (maxNodeNum : ℕ) (nodeList : DijkstraNodeList) (b : ℕ) (vs : List ℕ) (s : LoopState),
      nodeList.len ≤ maxNodeNum → nodeList.Has b →
      (∀ v ws c, Walk (NodeEdge nodeList) b v ws c → (c : ℤ) ≤ int32Max) →
      Run (Iteration maxNodeNum nodeList (listLength maxNodeNum nodeList))
        (startState (listLength maxNodeNum nodeList) b) vs s →
      s.i < listLength maxNodeNum nodeList → s.useNode ≠ 0 → SettledPrefix nodeList b vs s := by
  intro h
  have hsums : ∀ v ws c, Walk (NodeEdge oneEdge) 1 v ws c → (c : ℤ) ≤ int32Max := by
    intro v ws c hw
    simp only [int32Max]
    rcases oneEdge_walk hw with ⟨-, rfl⟩ | ⟨-, rfl⟩
    · decide
    · decide
  have hprefix := h 65537 oneEdge 1 [] (startState (listLength 65537 oneEdge) 1) (by decide)
    ⟨le_rfl, by decide⟩ hsums .nil (by decide) Nat.one_ne_zero
  exact absurd hprefix.perm (by decide)

end HsCommon.Dijkstra
