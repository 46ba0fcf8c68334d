import HsCommon.Dijkstra.Settle

/-!
# The result of dijkstra_get_path

The list of used nodes stays a listing of all nodes whose first entries are the
settled ones, so every round of the loop settles one node. When the loop ends
everything found is settled, and the cache of the end node is a shortest path.
-/

namespace HsCommon.Dijkstra
open LabelSetting

variable {nodeList : DijkstraNodeList} {b x : ℕ} {used : ℕ → ℕ} {len : ℕ}
  {caches caches' : ℕ → PathNodeCache}

structure Listing (used : ℕ → ℕ) (len : ℕ) : Prop where
  range : ∀ j < len, 1 ≤ used j ∧ used j ≤ len
  inj : ∀ j < len, ∀ k < len, used j = used k → j = k
  surj : ∀ v, 1 ≤ v → v ≤ len → ∃ j < len, used j = v

theorem listing_start (len : ℕ) : Listing (fun i => if i < len then i + 1 else 0) len where
  range j hj := by
    rw [if_pos hj]
    omega
  inj j hj k hk he := by
    rw [if_pos hj, if_pos hk] at he
    omega
  surj v h1 hv := by
    refine ⟨v - 1, by omega, ?_⟩
    rw [if_pos (by omega)]
    omega

theorem Listing.swap (h : Listing used len) {i k : ℕ} (hi : i < len) (hk : k < len) :
    Listing (used ∘ Equiv.swap i k) len := by
  have hlt : ∀ j < len, Equiv.swap i k j < len := by
    intro j hj
    rw [Equiv.swap_apply_def]
    split_ifs <;> assumption
  refine ⟨fun j hj => h.range _ (hlt j hj), ?_, ?_⟩
  · intro j hj m hm he
    exact (Equiv.swap i k).injective (h.inj _ (hlt j hj) _ (hlt m hm) he)
  · intro v h1 hv
    obtain ⟨j, hj, rfl⟩ := h.surj v h1 hv
    refine ⟨Equiv.swap i k j, hlt j hj, ?_⟩
    rw [Function.comp_apply, Equiv.swap_apply_self]

theorem findNode_spec {nodeId : ℕ} (n i : ℕ) (h0 : ∀ j, i ≤ j → j < i + n → used j ≠ 0)
    (hex : ∃ k, i ≤ k ∧ k < i + n ∧ used k = nodeId) :
    ∃ k, i ≤ k ∧ k < i + n ∧ used k = nodeId ∧ findNode used nodeId n i = some k := by
  induction n generalizing i with
  | zero =>
    obtain ⟨k, h1, h2, -⟩ := hex
    omega
  | succ n ih =>
    rw [findNode, if_neg (h0 i le_rfl (by omega))]
    by_cases hi : used i = nodeId
    · exact ⟨i, le_rfl, by omega, hi, by rw [if_pos hi]⟩
    · obtain ⟨k, h1, h2, h3⟩ := hex
      have hk : i + 1 ≤ k := by
        rcases Nat.eq_or_lt_of_le h1 with rfl | h1
        · exact absurd h3 hi
        · exact h1
      obtain ⟨k, h1, h2, h3, h4⟩ :=
        ih (i + 1) (fun j hj hjn => h0 j (by omega) (by omega)) ⟨k, hk, by omega, h3⟩
      exact ⟨k, by omega, by omega, h3, by rw [if_neg hi, h4]⟩

theorem setUsedNodeToPos_spec (h : Listing used len) {i k : ℕ} (hik : i ≤ k) (hk : k < len) :
    setUsedNodeToPos used len (used k) i = used ∘ Equiv.swap i k := by
  rw [setUsedNodeToPos]
  by_cases hi : used i = used k
  · obtain rfl := h.inj i (by omega) k hk hi
    rw [if_pos rfl, Equiv.swap_self]
    rfl
  · rw [if_neg hi]
    obtain ⟨m, him, hm, hmk, hf⟩ := @findNode_spec used (used k) (len - i) i
      (fun j _ hj => by have := h.range j (by omega); omega) ⟨k, hik, by omega, rfl⟩
    obtain rfl := h.inj m (by omega) k hk hmk
    rw [hf]
    funext j
    dsimp only [Function.comp_apply]
    rw [Equiv.swap_apply_def]
    by_cases hjm : j = m
    · subst hjm
      by_cases hji : j = i
      · exact absurd (hji ▸ rfl) hi
      · rw [Function.update_self, if_neg hji, if_pos rfl]
    · rw [Function.update_of_ne hjm]
      by_cases hji : j = i
      · rw [hji, Function.update_self, if_pos rfl]
      · rw [Function.update_of_ne hji, if_neg hji, if_neg hjm]

theorem mem_restNodes {i v : ℕ} :
    v ∈ restNodes used len i ↔ ∃ j, i < j ∧ j < len ∧ used j = v := by
  rw [restNodes, List.mem_map]
  constructor
  · rintro ⟨j, hj, rfl⟩
    rw [List.mem_range'_1] at hj
    exact ⟨j, by omega, by omega, rfl⟩
  · rintro ⟨j, h1, h2, rfl⟩
    exact ⟨j, List.mem_range'_1.mpr (by omega), rfl⟩

theorem Listing.restNodes_nodup (h : Listing used len) (i : ℕ) : (restNodes used len i).Nodup := by
  refine List.Nodup.map_on ?_ List.nodup_range'
  intro j hj k hk he
  rw [List.mem_range'_1] at hj hk
  exact h.inj j (by omega) k (by omega) he

/-- The sum for a node behind `x`, whose cache is `c`, is an `int32_t`. -/
def Fits (nodeList : DijkstraNodeList) (x : ℕ) (c : PathNodeCache) (v : ℕ) : Prop :=
  0 < (nodeList.nodes (x - 1)).weight (v - 1) →
    int32Min ≤ c.weightsLen + (nodeList.nodes (x - 1)).weight (v - 1) ∧
      c.weightsLen + (nodeList.nodes (x - 1)).weight (v - 1) ≤ int32Max

theorem relax_spec {maxNodeNum : ℕ} (nodeList : DijkstraNodeList) (v : ℕ)
    (hmax : maxNodeNum ≤ 65535)
    (hnum : (caches (x - 1)).pathNodeNum < maxNodeNum) :
    (relax maxNodeNum nodeList x caches v = .error .intOverflow ∧
      ¬ Fits nodeList x (caches (x - 1)) v) ∨
    (relax maxNodeNum nodeList x caches v = .ok (Function.update caches (v - 1)
        (relaxed nodeList x (caches (x - 1)) v (caches (v - 1)))) ∧
      Fits nodeList x (caches (x - 1)) v) := by
  simp only [relax, relaxed]
  by_cases hw : (nodeList.nodes (x - 1)).weight (v - 1) ≤ 0
  · right
    rw [if_pos hw, if_pos hw, Function.update_eq_self]
    exact ⟨rfl, fun hpos => absurd hpos (not_lt.mpr hw)⟩
  · rw [if_neg hw, if_neg hw, int32]
    by_cases hr : int32Min ≤ (caches (x - 1)).weightsLen +
        (nodeList.nodes (x - 1)).weight (v - 1) ∧ (caches (x - 1)).weightsLen +
        (nodeList.nodes (x - 1)).weight (v - 1) ≤ int32Max
    · right
      refine ⟨?_, fun _ => hr⟩
      rw [if_pos hr]
      simp only [bind, Except.bind, if_pos hnum, u16Add_eq (show (caches (x - 1)).pathNodeNum + 1 <
        65536 by omega)]
      by_cases hc : (caches (v - 1)).pathNodeNum = 0 ∨ (caches (v - 1)).weightsLen >
          (caches (x - 1)).weightsLen + (nodeList.nodes (x - 1)).weight (v - 1)
      · rw [if_pos hc, if_pos hc]
        rfl
      · rw [if_neg hc, if_neg hc, Function.update_eq_self]
        rfl
    · left
      rw [if_neg hr]
      exact ⟨rfl, fun hfits => hr (hfits (not_le.mp hw))⟩

theorem relaxAll_spec {maxNodeNum : ℕ} (nodeList : DijkstraNodeList) (hmax : maxNodeNum ≤ 65535)
    (hnum : (caches (x - 1)).pathNodeNum < maxNodeNum) (hx1 : 1 ≤ x) (ns : List ℕ)
    (hnd : ns.Nodup) (hx : x ∉ ns) (hpos : ∀ v ∈ ns, 1 ≤ v) :
    (relaxAll maxNodeNum nodeList x ns caches = .error .intOverflow ∧
      ¬ ∀ v ∈ ns, Fits nodeList x (caches (x - 1)) v) ∨
    ∃ caches', relaxAll maxNodeNum nodeList x ns caches = .ok caches' ∧
      (∀ v ∈ ns, Fits nodeList x (caches (x - 1)) v) ∧
      (∀ v, 1 ≤ v → v ∉ ns → caches' (v - 1) = caches (v - 1)) ∧
      ∀ v ∈ ns, caches' (v - 1) = relaxed nodeList x (caches (x - 1)) v (caches (v - 1)) := by
  induction ns generalizing caches with
  | nil => exact Or.inr ⟨caches, rfl, by simp, fun _ _ _ => rfl, by simp⟩
  | cons w ns ih =>
    rw [List.nodup_cons] at hnd
    rw [List.mem_cons, not_or] at hx
    rw [List.forall_mem_cons]
    have hw1 : 1 ≤ w := hpos w List.mem_cons_self
    have hne : ∀ v, 1 ≤ v → v ≠ w → v - 1 ≠ w - 1 := fun v hv hvw => by omega
    rcases relax_spec nodeList w hmax hnum with ⟨he, hover⟩ | ⟨he, hfits⟩
    · left
      rw [relaxAll, he]
      exact ⟨rfl, fun hall => hover hall.1⟩
    · have hxkeep : Function.update caches (w - 1)
          (relaxed nodeList x (caches (x - 1)) w (caches (w - 1))) (x - 1) = caches (x - 1) :=
        Function.update_of_ne (hne x hx1 hx.1) _ _
      have hrest := @ih (Function.update caches (w - 1) (relaxed nodeList x (caches (x - 1)) w
        (caches (w - 1)))) (by rw [hxkeep]; exact hnum) hnd.2 hx.2
        (fun v hv => hpos v (List.mem_cons_of_mem _ hv))
      rw [hxkeep] at hrest
      rcases hrest with ⟨hr, hover⟩ | ⟨caches', hr, hall, hkeep, hrel⟩
      · left
        rw [relaxAll, he]
        exact ⟨hr, fun hall => hover hall.2⟩
      · right
        refine ⟨caches', by rw [relaxAll, he]; exact hr, ⟨hfits, hall⟩, ?_, ?_⟩
        · intro v hv hvn
          rw [List.mem_cons, not_or] at hvn
          rw [hkeep v hv hvn.2, Function.update_of_ne (hne v hv hvn.1)]
        · intro v hv
          rcases List.mem_cons.mp hv with rfl | hv
          · rw [hkeep v hw1 hnd.1, Function.update_self]
          · have hvw : v ≠ w := fun h => hnd.1 (h ▸ hv)
            rw [hrel v hv, Function.update_of_ne
              (hne v (hpos v (List.mem_cons_of_mem _ hv)) hvw)]

theorem foldl_minStep (caches : ℕ → PathNodeCache) (ns : List ℕ) :
    (ns.foldl (minStep caches) (-1, 0) = (-1, 0) ∧
      ∀ n ∈ ns, (caches (n - 1)).weightsLen ≤ 0) ∨
    ∃ before n behind, ns = before ++ n :: behind ∧
      ns.foldl (minStep caches) (-1, 0) = ((caches (n - 1)).weightsLen, n) ∧
      0 < (caches (n - 1)).weightsLen ∧
      (∀ m ∈ before, 0 < (caches (m - 1)).weightsLen →
        (caches (n - 1)).weightsLen < (caches (m - 1)).weightsLen) ∧
      ∀ m ∈ ns, 0 < (caches (m - 1)).weightsLen →
        (caches (n - 1)).weightsLen ≤ (caches (m - 1)).weightsLen := by
  induction ns using List.reverseRecOn with
  | nil => exact Or.inl ⟨rfl, by simp⟩
  | append_singleton ns w ih =>
    rw [List.foldl_append, List.foldl_cons, List.foldl_nil]
    by_cases hw : (caches (w - 1)).weightsLen > 0
    · right
      rcases ih with ⟨he, hle⟩ | ⟨before, n, behind, hns, he, hpos, hfirst, hmin⟩
      · refine ⟨ns, w, [], rfl, by simp [he, minStep, hw], hw, ?_, ?_⟩
        · intro m hm hm0
          have := hle m hm
          omega
        · intro m hm hm0
          rcases List.mem_append.mp hm with hm | hm
          · have := hle m hm
            omega
          · rw [List.mem_singleton.mp hm]
      · by_cases hlt : (caches (n - 1)).weightsLen > (caches (w - 1)).weightsLen
        · refine ⟨ns, w, [], rfl, ?_, hw, ?_, ?_⟩
          · simp only [he, minStep, if_pos hw, if_pos (Or.inr hlt)]
          · exact fun m hm hm0 => hlt.trans_le (hmin m hm hm0)
          · intro m hm hm0
            rcases List.mem_append.mp hm with hm | hm
            · exact hlt.le.trans (hmin m hm hm0)
            · rw [List.mem_singleton.mp hm]
        · refine ⟨before, n, behind ++ [w], by rw [hns]; simp, ?_, hpos, hfirst, ?_⟩
          · have hneg : ¬ ((caches (n - 1)).weightsLen < 0 ∨
                (caches (n - 1)).weightsLen > (caches (w - 1)).weightsLen) := by omega
            simp only [he, minStep, if_pos hw, if_neg hneg]
          · intro m hm hm0
            rcases List.mem_append.mp hm with hm | hm
            · exact hmin m hm hm0
            · rw [List.mem_singleton.mp hm]
              exact not_lt.mp hlt
    · have hskip : ∀ p, minStep caches p w = p := by
        intro p
        simp only [minStep, if_neg hw]
      rw [hskip]
      rcases ih with ⟨he, hle⟩ | ⟨before, n, behind, hns, he, hpos, hfirst, hmin⟩
      · refine Or.inl ⟨he, ?_⟩
        intro m hm
        rcases List.mem_append.mp hm with hm | hm
        · exact hle m hm
        · rw [List.mem_singleton.mp hm]
          exact not_lt.mp hw
      · refine Or.inr ⟨before, n, behind ++ [w], by rw [hns]; simp, he, hpos, hfirst, ?_⟩
        intro m hm hm0
        rcases List.mem_append.mp hm with hm | hm
        · exact hmin m hm hm0
        · rw [List.mem_singleton.mp hm] at hm0
          exact absurd hm0 hw

def firstNodes (used : ℕ → ℕ) (i : ℕ) : Set ℕ := {v | ∃ j < i, used j = v}

def Next (nodeList : DijkstraNodeList) (b : ℕ) (S : Set ℕ) (caches : ℕ → PathNodeCache) (x : ℕ) :
    Prop :=
  (x = 0 ∧ ∀ v, nodeList.Has v → Found b caches v → v ∈ S) ∨
    (nodeList.Has x ∧ x ∉ S ∧ Found b caches x ∧
      ∀ v, nodeList.Has v → v ∉ S → Found b caches v → label caches x ≤ label caches v)

structure Head (nodeList : DijkstraNodeList) (b : ℕ) (s : LoopState) : Prop where
  listing : Listing s.usedNodesId nodeList.len
  settled : Settled nodeList b (firstNodes s.usedNodesId s.i) s.allPathCache
  root : (s.i = 0 ∧ s.useNode = b) ∨ b ∈ firstNodes s.usedNodesId s.i
  next : Next nodeList b (firstNodes s.usedNodesId s.i) s.allPathCache s.useNode

theorem head_start (hb : nodeList.Has b) : Head nodeList b (startState nodeList.len b) := by
  have hnone : firstNodes (startState nodeList.len b).usedNodesId 0 = ∅ := by
    ext v
    simp [firstNodes]
  refine ⟨listing_start _, ?_, Or.inl ⟨rfl, rfl⟩, Or.inr ⟨hb, ?_, Or.inl rfl, ?_⟩⟩
  · change Settled nodeList b (firstNodes (startState nodeList.len b).usedNodesId 0) _
    rw [hnone]
    exact settled_start hb
  · rintro ⟨j, hj, -⟩
    cases hj
  · exact fun v _ _ _ => le_rfl

theorem next_of_scan {S : Set ℕ} {i : ℕ} (h : Settled nodeList b S caches) (hbS : b ∈ S)
    (hrest : ∀ v, v ∈ restNodes used len i ↔ nodeList.Has v ∧ v ∉ S) :
    Next nodeList b S caches ((restNodes used len i).foldl (minStep caches) (-1, 0)).2 := by
  have hother : ∀ v, v ∉ S → v ≠ b := fun v hv he => hv (he ▸ hbS)
  rcases foldl_minStep caches (restNodes used len i) with
    ⟨he, hle⟩ | ⟨before, n, behind, hns, he, hpos, -, hmin⟩
  · left
    rw [he]
    refine ⟨rfl, fun v hv hf => ?_⟩
    by_contra hvS
    have := (h.weightsLen_pos_iff hv (hother v hvS)).mpr hf
    have := hle v ((hrest v).mpr ⟨hv, hvS⟩)
    omega
  · right
    rw [he]
    obtain ⟨hnh, hnS⟩ := (hrest n).mp (by rw [hns]; simp)
    refine ⟨hnh, hnS, (h.weightsLen_pos_iff hnh (hother n hnS)).mp hpos, ?_⟩
    intro v hv hvS hf
    have hvpos := (h.weightsLen_pos_iff hv (hother v hvS)).mpr hf
    exact Int.toNat_le_toNat (hmin v ((hrest v).mpr ⟨hv, hvS⟩) hvpos)

theorem firstNodes_swap (used : ℕ → ℕ) {i k : ℕ} (hik : i ≤ k) :
    firstNodes (used ∘ Equiv.swap i k) (i + 1) = insert (used k) (firstNodes used i) := by
  ext v
  have hsame : ∀ j < i, (used ∘ Equiv.swap i k) j = used j := fun j hj => by
    rw [Function.comp_apply, Equiv.swap_apply_of_ne_of_ne (by omega) (by omega)]
  have hat : (used ∘ Equiv.swap i k) i = used k := by
    rw [Function.comp_apply, Equiv.swap_apply_left]
  constructor
  · rintro ⟨j, hj, rfl⟩
    rcases Nat.lt_succ_iff_lt_or_eq.mp hj with hj | rfl
    · exact Set.mem_insert_of_mem _ ⟨j, hj, (hsame j hj).symm⟩
    · exact Set.mem_insert_iff.mpr (Or.inl hat)
  · intro hv
    rcases Set.mem_insert_iff.mp hv with rfl | ⟨j, hj, rfl⟩
    · exact ⟨i, Nat.lt_succ_self i, hat⟩
    · exact ⟨j, by omega, hsame j hj⟩

theorem Listing.mem_restNodes_iff (h : Listing used len) {i v : ℕ} :
    v ∈ restNodes used len i ↔ (1 ≤ v ∧ v ≤ len) ∧ v ∉ firstNodes used (i + 1) := by
  rw [mem_restNodes]
  constructor
  · rintro ⟨j, hij, hj, rfl⟩
    refine ⟨h.range j hj, ?_⟩
    rintro ⟨m, hm, he⟩
    have := h.inj m (by omega) j hj he
    omega
  · rintro ⟨hv, hvS⟩
    obtain ⟨j, hj, rfl⟩ := h.surj v hv.1 hv.2
    refine ⟨j, ?_, hj, rfl⟩
    by_contra hij
    exact hvS ⟨j, by omega, rfl⟩

theorem Head.exists_place {s : LoopState} (h : Head nodeList b s) (hx0 : s.useNode ≠ 0) :
    ∃ k, s.i ≤ k ∧ k < nodeList.len ∧ s.usedNodesId k = s.useNode := by
  obtain ⟨hx, hxS, -⟩ := h.next.resolve_left fun h => hx0 h.1
  obtain ⟨k, hk, hxk⟩ := h.listing.surj _ hx.1 hx.2
  exact ⟨k, not_lt.mp fun hlt => hxS ⟨k, hlt, hxk⟩, hk, hxk⟩

theorem Head.round_at {maxNodeNum : ℕ} (hmax : maxNodeNum ≤ 65535)
    (hlen : nodeList.len ≤ maxNodeNum) (hb : nodeList.Has b) {s : LoopState}
    (h : Head nodeList b s) (hx0 : s.useNode ≠ 0) {k : ℕ} (hik : s.i ≤ k) (hk : k < nodeList.len)
    (hxk : s.usedNodesId k = s.useNode) :
    let placed := s.usedNodesId ∘ Equiv.swap s.i k
    let rest := restNodes placed nodeList.len s.i
    (Dijkstra.round maxNodeNum nodeList nodeList.len s = .error .intOverflow ∧
      ¬ ∀ v ∈ rest, Fits nodeList s.useNode (s.allPathCache (s.useNode - 1)) v) ∨
    ∃ caches', Dijkstra.round maxNodeNum nodeList nodeList.len s =
        .ok ⟨s.i + 1, placed, caches', (rest.foldl (minStep caches') (-1, 0)).2⟩ ∧
      (∀ v ∈ rest, Fits nodeList s.useNode (s.allPathCache (s.useNode - 1)) v) ∧
      Head nodeList b ⟨s.i + 1, placed, caches', (rest.foldl (minStep caches') (-1, 0)).2⟩ := by
  obtain ⟨i, used, caches, x⟩ := s
  obtain ⟨hlist, hset, hroot, hnext⟩ := h
  dsimp only at hlist hset hroot hnext hx0 hik hxk ⊢
  obtain ⟨hx, hxS, hxf, hmin⟩ := hnext.resolve_left fun h => hx0 h.1
  subst hxk
  have hplace := setUsedNodeToPos_spec hlist hik hk
  have hlist' := hlist.swap (lt_of_le_of_lt hik hk) hk
  have hfirst := firstNodes_swap used hik
  have hrest : ∀ v, v ∈ restNodes (used ∘ Equiv.swap i k) nodeList.len i ↔
      nodeList.Has v ∧ v ∉ insert (used k) (firstNodes used i) := by
    intro v
    rw [hlist'.mem_restNodes_iff, hfirst]
    rfl
  have hbS : b ∈ insert (used k) (firstNodes used i) :=
    hroot.elim (fun h => h.2 ▸ Set.mem_insert _ _) fun h => Set.mem_insert_of_mem _ h
  have hnum : (caches (used k - 1)).pathNodeNum < maxNodeNum := by
    have hroom := (least_walk_length hb (hset.walk _ hx hxf) fun _ _ hw =>
      hset.least hxS hmin hw).2
    rw [PathNodeCache.path, Cells.read_length] at hroom
    omega
  simp only [Dijkstra.round, hplace]
  rcases relaxAll_spec nodeList hmax hnum hx.1
      (restNodes (used ∘ Equiv.swap i k) nodeList.len i) (hlist'.restNodes_nodup i)
      (fun hm => ((hrest _).mp hm).2 (Set.mem_insert _ _)) (fun v hv => ((hrest v).mp hv).1.1)
    with ⟨he, hover⟩ | ⟨caches', he, hfits, hkeep, hrel⟩
  · left
    rw [he]
    exact ⟨rfl, hover⟩
  · right
    have hset' : Settled nodeList b (insert (used k) (firstNodes used i)) caches' := by
      refine hset.settle ⟨?_, ?_⟩ hx hxS hxf hbS hmin
      · exact fun v hv hvS => hkeep v hv.1 fun hm => ((hrest v).mp hm).2 hvS
      · exact fun v hv hvS => hrel v ((hrest v).mpr ⟨hv, hvS⟩)
    rw [he]
    refine ⟨caches', rfl, hfits, hlist', ?_, Or.inr ?_, ?_⟩
    · rw [hfirst]
      exact hset'
    · rw [hfirst]
      exact hbS
    · rw [hfirst]
      exact next_of_scan hset' hbS hrest

theorem Head.round {maxNodeNum : ℕ} (hmax : maxNodeNum ≤ 65535) (hlen : nodeList.len ≤ maxNodeNum)
    (hb : nodeList.Has b) {s : LoopState} (h : Head nodeList b s) (hx0 : s.useNode ≠ 0) :
    Dijkstra.round maxNodeNum nodeList nodeList.len s = .error .intOverflow ∨
      ∃ s', Dijkstra.round maxNodeNum nodeList nodeList.len s = .ok s' ∧ s'.i = s.i + 1 ∧
        Head nodeList b s' := by
  obtain ⟨k, hik, hk, hxk⟩ := h.exists_place hx0
  rcases h.round_at hmax hlen hb hx0 hik hk hxk with ⟨he, -⟩ | ⟨caches', he, -, h'⟩
  · exact Or.inl he
  · exact Or.inr ⟨_, he, rfl, h'⟩

theorem mainLoop_spec {maxNodeNum : ℕ} (hmax : maxNodeNum ≤ 65535)
    (hlen : nodeList.len ≤ maxNodeNum) (hb : nodeList.Has b) (n : ℕ) {s : LoopState}
    (hn : s.i + n = nodeList.len) (h : Head nodeList b s) :
    mainLoop maxNodeNum nodeList nodeList.len n s = .error .intOverflow ∨
      ∃ s' S, mainLoop maxNodeNum nodeList nodeList.len n s = .ok s' ∧
        Settled nodeList b S s'.allPathCache ∧
        ∀ v, nodeList.Has v → Found b s'.allPathCache v → v ∈ S := by
  induction n generalizing s with
  | zero =>
    refine Or.inr ⟨s, _, rfl, h.settled, fun v hv _ => ?_⟩
    obtain ⟨j, hj, rfl⟩ := h.listing.surj v hv.1 hv.2
    exact ⟨j, by omega, rfl⟩
  | succ n ih =>
    rw [mainLoop]
    by_cases hx : s.useNode = 0
    · rw [if_pos hx]
      refine Or.inr ⟨s, _, rfl, h.settled, ?_⟩
      rcases h.next with ⟨-, hall⟩ | ⟨hhas, -⟩
      · exact hall
      · rw [hx] at hhas
        exact absurd hhas.1 (by omega)
    · rw [if_neg hx]
      rcases h.round hmax hlen hb hx with he | ⟨s', he, hi, h'⟩
      · left
        rw [he]
        rfl
      · rw [he]
        exact ih (by omega) h'

theorem dijkstraGetPath_eq {maxNodeNum : ℕ} (hmax : maxNodeNum ≤ 65535)
    (hlen : nodeList.len ≤ maxNodeNum) {beginNode endNode : ℕ} (hb : nodeList.Has beginNode)
    (he : nodeList.Has endNode) (resultList : PathNodeCache) :
    dijkstraGetPath maxNodeNum (some nodeList) beginNode endNode resultList = (do
      let s ← mainLoop maxNodeNum nodeList nodeList.len nodeList.len
        (startState nodeList.len beginNode)
      if (s.allPathCache (endNode - 1)).weightsLen = 0 then return (-1, resultList)
      else return (0, s.allPathCache (endNode - 1))) := by
  obtain ⟨hb1, hb2⟩ := hb
  obtain ⟨he1, he2⟩ := he
  have hmod : (if nodeList.len < maxNodeNum % 65536 then nodeList.len else maxNodeNum % 65536) =
      nodeList.len := by
    rw [Nat.mod_eq_of_lt (by omega)]
    split_ifs <;> omega
  have hin :
      ¬ (beginNode = 0 ∨ beginNode > nodeList.len ∨ endNode = 0 ∨ endNode > nodeList.len) := by
    omega
  simp only [dijkstraGetPath, if_neg hin, hmod]

/-- Unless a sum overflows, the call returns 0 exactly if the end node is another node that can be
reached, and then reports a simple path of least length. -/
theorem dijkstraGetPath_spec (maxNodeNum : ℕ) (hmax : maxNodeNum ≤ 65535)
    (nodeList : DijkstraNodeList) (hlen : nodeList.len ≤ maxNodeNum) (beginNode endNode : ℕ)
    (hb : nodeList.Has beginNode) (he : nodeList.Has endNode) (resultList : PathNodeCache)
    (hsum : dijkstraGetPath maxNodeNum (some nodeList) beginNode endNode resultList ≠
      .error .intOverflow) :
    ∃ code out, dijkstraGetPath maxNodeNum (some nodeList) beginNode endNode resultList =
        .ok (code, out) ∧
      (code = 0 ↔ beginNode ≠ endNode ∧
        ∃ vs c, Walk (NodeEdge nodeList) beginNode endNode vs c) ∧
      (code = 0 → ∃ c : ℕ, Walk (NodeEdge nodeList) beginNode endNode out.path c ∧
        (beginNode :: out.path).Nodup ∧ out.weightsLen = c ∧
        ∀ vs d, Walk (NodeEdge nodeList) beginNode endNode vs d → c ≤ d) ∧
      (code ≠ 0 → code = -1 ∧ out = resultList) := by
  have hrun := dijkstraGetPath_eq hmax hlen hb he resultList
  rcases mainLoop_spec hmax hlen hb nodeList.len (Nat.zero_add _) (head_start hb) with
    hov | ⟨s, S, hok, h, hall⟩
  · rw [hrun, hov] at hsum
    exact absurd rfl hsum
  · rw [hrun, hok]
    simp only [bind, Except.bind]
    by_cases hz : (s.allPathCache (endNode - 1)).weightsLen = 0
    · rw [if_pos hz]
      refine ⟨-1, resultList, rfl, ⟨by simp, ?_⟩, by simp, fun _ => ⟨rfl, rfl⟩⟩
      rintro ⟨hne, vs, c, hw⟩
      exfalso
      obtain ⟨a, ha, -⟩ := h.labels.settled_of_walk (fun y d hy => hy.2.1 (hall y hy.1 hy.2.2.1)) hw
      have := (h.weightsLen_pos_iff he (Ne.symm hne)).mpr (h.found endNode ha)
      omega
    · rw [if_neg hz]
      have hne : endNode ≠ beginNode := by
        rintro rfl
        exact hz h.begin_zero.2
      have hf : Found beginNode s.allPathCache endNode := by
        rcases h.cache endNode he with ⟨-, h0⟩ | ⟨-, hpos⟩
        · exact absurd h0 hz
        · exact (h.weightsLen_pos_iff he hne).mp hpos
      have hw := h.walk endNode he hf
      have hleast : ∀ vs d, Walk (NodeEdge nodeList) beginNode endNode vs d →
          label s.allPathCache endNode ≤ d := fun vs d hd =>
        h.labels.least endNode _ vs d ⟨hall endNode he hf, rfl⟩ hd
      refine ⟨0, _, rfl, ⟨fun _ => ⟨hne.symm, _, _, hw⟩, fun _ => rfl⟩, fun _ => ?_, by simp⟩
      exact ⟨label s.allPathCache endNode, hw, (least_walk_length hb hw hleast).1,
        (h.label_cast he).symm, hleast⟩

def oneEdge : DijkstraNodeList := ⟨fun i => ⟨i + 1, fun j => if i = 0 ∧ j = 1 then 7 else 0⟩, 2⟩

theorem dijkstraGetPath_oneEdge :
    ∃ out, dijkstraGetPath 5 (some oneEdge) 1 2 .zero = .ok (0, out) ∧
      ∃ c : ℕ, Walk (NodeEdge oneEdge) 1 2 out.path c ∧ (1 :: out.path).Nodup ∧
        out.weightsLen = c ∧ ∀ vs d, Walk (NodeEdge oneEdge) 1 2 vs d → c ≤ d := by
  have hrun : (dijkstraGetPath 5 (some oneEdge) 1 2 .zero).map Prod.fst = .ok 0 := by
    decide +kernel
  have hsum : dijkstraGetPath 5 (some oneEdge) 1 2 .zero ≠ .error .intOverflow := by
    intro he
    rw [he] at hrun
    cases hrun
  obtain ⟨code, out, he, -, hpath, -⟩ := dijkstraGetPath_spec 5 (by decide) oneEdge (by decide) 1 2
    ⟨by decide, by decide⟩ ⟨by decide, by decide⟩ .zero hsum
  rw [he] at hrun
  obtain rfl : code = 0 := Except.ok.inj hrun
  exact ⟨out, he, hpath rfl⟩

theorem dijkstraGetPath_wrapped :
    dijkstraGetPath 65536 (some oneEdge) 1 2 .zero = .ok (-1, .zero) ∧
      Walk (NodeEdge oneEdge) 1 2 [2] 7 := by
  refine ⟨rfl, ?_⟩
  have hedge : NodeEdge oneEdge 1 2 7 := by
    refine ⟨⟨le_rfl, ?_⟩, ⟨?_, le_rfl⟩, ?_, rfl⟩ <;> decide
  exact Walk.nil.snoc hedge

end HsCommon.Dijkstra
