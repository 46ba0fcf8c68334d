import HsCommon.Dijkstra.ShortestPath

/-!
# Sums of weights

Nodes are settled in the order of their distance from the begin node. Of equally distant ones the
first in the list of used nodes comes next, and it changes places with the node at the position
that it takes. The order does not depend on how the sums are computed. A sum is computed for each
positive weight from a node to one that is settled later or never, and the loop stops at the first
sum that is no `int32_t`.
-/

namespace HsCommon.Dijkstra
open LabelSetting

variable {nodeList : DijkstraNodeList} {b x : ℕ} {used used' : ℕ → ℕ} {i i' k : ℕ} {S : Set ℕ}
  {caches : ℕ → PathNodeCache}

structure Distance (nodeList : DijkstraNodeList) (b v a : ℕ) : Prop where
  walk : ∃ vs, Walk (NodeEdge nodeList) b v vs a
  least : ∀ vs c, Walk (NodeEdge nodeList) b v vs c → a ≤ c

structure Chosen (nodeList : DijkstraNodeList) (b : ℕ) (used : ℕ → ℕ) (i k : ℕ) : Prop where
  behind : i ≤ k
  lt : k < nodeList.len
  nearest : ∃ a, Distance nodeList b (used k) a ∧ ∀ j, i ≤ j → j < nodeList.len →
    ∀ c, Distance nodeList b (used j) c → a < c ∨ (a = c ∧ k ≤ j)

inductive Arranged (nodeList : DijkstraNodeList) (b : ℕ) : ℕ → (ℕ → ℕ) → Prop where
  | start : Arranged nodeList b 0 fun i => if i < nodeList.len then i + 1 else 0
  | swap {i k : ℕ} {used : ℕ → ℕ} : Arranged nodeList b i used →
      Chosen nodeList b used i k → Arranged nodeList b (i + 1) (used ∘ Equiv.swap i k)

/-- The weights from the node settled next to the others that are left can be added to its
distance. -/
def SumsFit (nodeList : DijkstraNodeList) (b i : ℕ) (used : ℕ → ℕ) : Prop :=
  ∀ k a, Chosen nodeList b used i k → Distance nodeList b (used k) a →
    ∀ j, i ≤ j → j < nodeList.len → j ≠ k →
      0 < (nodeList.nodes (used k - 1)).weight (used j - 1) →
        a + (nodeList.nodes (used k - 1)).weight (used j - 1) ≤ int32Max

theorem Distance.unique {v a c : ℕ} (h : Distance nodeList b v a) (h' : Distance nodeList b v c) :
    a = c := by
  obtain ⟨vs, hw⟩ := h.walk
  obtain ⟨ws, hw'⟩ := h'.walk
  exact Nat.le_antisymm (h.least ws c hw') (h'.least vs a hw)

theorem Chosen.unique {k' : ℕ} (h : Chosen nodeList b used i k)
    (h' : Chosen nodeList b used i k') : k = k' := by
  obtain ⟨a, hd, hfirst⟩ := h.nearest
  obtain ⟨c, hd', hfirst'⟩ := h'.nearest
  have hle := hfirst k' h'.behind h'.lt c hd'
  have hle' := hfirst' k h.behind h.lt a hd
  omega

theorem Arranged.unique (h : Arranged nodeList b i used) (h' : Arranged nodeList b i used') :
    used = used' := by
  induction h generalizing used' with
  | start =>
    cases h'
    rfl
  | swap _ hk ih =>
    cases h' with
    | swap h' hk' =>
      obtain rfl := ih h'
      rw [hk.unique hk']

theorem Arranged.exists_chosen (h : Arranged nodeList b i' used') (hlt : i < i') :
    ∃ used k, Arranged nodeList b i used ∧ Chosen nodeList b used i k := by
  induction h with
  | start => cases hlt
  | @swap m k used h hk ih =>
    rcases Nat.lt_succ_iff_lt_or_eq.mp hlt with hlt | rfl
    · exact ih hlt
    · exact ⟨used, k, h, hk⟩

theorem Settled.farther_or_found (h : Settled nodeList b S caches)
    (hmin : ∀ y, nodeList.Has y → y ∉ S → Found b caches y → label caches x ≤ label caches y)
    {v : ℕ} (hvS : v ∉ S) {vs : List ℕ} {c : ℕ} (hw : Walk (NodeEdge nodeList) b v vs c) :
    label caches x < c ∨ (Found b caches v ∧ label caches v ≤ c) := by
  obtain ⟨y, a, ws, d, ⟨hy, hyS, hyf, ha⟩, hd, hle⟩ := h.labels.crossing hw fun a ha => hvS ha.1
  dsimp only at hy hyS hyf ha
  have hnear := hmin y hy hyS hyf
  cases hd with
  | nil =>
    right
    exact ⟨hyf, by omega⟩
  | snoc _ hedge =>
    left
    have hpos := hedge.pos
    omega

theorem Settled.distance (h : Settled nodeList b S caches) (hx : nodeList.Has x) (hxS : x ∉ S)
    (hxf : Found b caches x)
    (hmin : ∀ y, nodeList.Has y → y ∉ S → Found b caches y → label caches x ≤ label caches y) :
    Distance nodeList b x (label caches x) :=
  ⟨⟨_, h.walk x hx hxf⟩, fun _ _ hw => h.least hxS hmin hw⟩

theorem restNodes_getElem? (used : ℕ → ℕ) {len i q : ℕ} (hq : i + 1 + q < len) :
    (restNodes used len i)[q]? = some (used (i + 1 + q)) := by
  rw [restNodes, List.getElem?_map, List.getElem?_range' (by omega), Nat.one_mul, Option.map_some]

theorem restNodes_split {len n : ℕ} {before behind : List ℕ}
    (h : restNodes used len i = before ++ n :: behind) :
    i + 1 + before.length < len ∧ used (i + 1 + before.length) = n ∧
      ∀ j, i + 1 ≤ j → j < i + 1 + before.length → used j ∈ before := by
  have hlen := congrArg List.length h
  rw [restNodes, List.length_map, List.length_range', List.length_append, List.length_cons] at hlen
  have hlt : i + 1 + before.length < len := by omega
  refine ⟨hlt, ?_, ?_⟩
  · have hget := restNodes_getElem? used hlt
    rw [h, List.getElem?_append_right le_rfl, Nat.sub_self] at hget
    exact (Option.some.inj hget).symm
  · intro j hj hjlt
    obtain ⟨q, rfl⟩ := Nat.exists_eq_add_of_le hj
    have hget := restNodes_getElem? used (hjlt.trans hlt)
    rw [h, List.getElem?_append_left (by omega)] at hget
    exact List.mem_of_getElem? hget

theorem Settled.rest_pos_iff (hlist : Listing used nodeList.len)
    (h : Settled nodeList b (firstNodes used (i + 1)) caches)
    (hb : b ∈ firstNodes used (i + 1)) {v : ℕ} (hv : v ∈ restNodes used nodeList.len i) :
    0 < (caches (v - 1)).weightsLen ↔ Found b caches v := by
  obtain ⟨hhas, hvS⟩ := hlist.mem_restNodes_iff.mp hv
  exact h.weightsLen_pos_iff hhas fun he => hvS (he ▸ hb)

theorem Settled.chosen_first (hlist : Listing used nodeList.len)
    (h : Settled nodeList b (firstNodes used (i + 1)) caches)
    (hb : b ∈ firstNodes used (i + 1)) {n : ℕ} {before behind : List ℕ}
    (hns : restNodes used nodeList.len i = before ++ n :: behind)
    (hpos : 0 < (caches (n - 1)).weightsLen)
    (hfirst : ∀ m ∈ before, 0 < (caches (m - 1)).weightsLen →
      (caches (n - 1)).weightsLen < (caches (m - 1)).weightsLen)
    (hmin : ∀ m ∈ restNodes used nodeList.len i, 0 < (caches (m - 1)).weightsLen →
      (caches (n - 1)).weightsLen ≤ (caches (m - 1)).weightsLen) :
    Chosen nodeList b used (i + 1) (i + 1 + before.length) := by
  obtain ⟨hlt, hat, hbefore⟩ := restNodes_split hns
  have hnr : n ∈ restNodes used nodeList.len i := by
    rw [hns]
    simp
  obtain ⟨hn, hnS⟩ := hlist.mem_restNodes_iff.mp hnr
  have hleast : ∀ y, nodeList.Has y → y ∉ firstNodes used (i + 1) → Found b caches y →
      label caches n ≤ label caches y := by
    intro y hy hyS hyf
    have hyr := hlist.mem_restNodes_iff.mpr ⟨hy, hyS⟩
    exact Int.toNat_le_toNat (hmin y hyr ((h.rest_pos_iff hlist hb hyr).mpr hyf))
  refine ⟨Nat.le_add_right _ _, hlt, label caches n, ?_, ?_⟩
  · rw [hat]
    exact h.distance hn hnS ((h.rest_pos_iff hlist hb hnr).mp hpos) hleast
  · intro j hj hjlt c hd
    obtain ⟨vs, hw⟩ := hd.walk
    have hjr : used j ∈ restNodes used nodeList.len i := mem_restNodes.mpr ⟨j, hj, hjlt, rfl⟩
    obtain ⟨hjhas, hjS⟩ := hlist.mem_restNodes_iff.mp hjr
    rcases h.farther_or_found hleast hjS hw with hfar | ⟨hf, hc⟩
    · exact Or.inl hfar
    · by_cases hjn : j < i + 1 + before.length
      · -- the scan keeps the earlier of two equal lengths
        have hstrict := hfirst _ (hbefore j hj hjn) ((h.rest_pos_iff hlist hb hjr).mpr hf)
        have hnn := h.label_cast hn
        have hjj := h.label_cast hjhas
        left
        omega
      · have hnear := hleast _ hjhas hjS hf
        omega

theorem Settled.not_chosen (hlist : Listing used nodeList.len)
    (h : Settled nodeList b (firstNodes used (i + 1)) caches)
    (hb : b ∈ firstNodes used (i + 1))
    (hle : ∀ n ∈ restNodes used nodeList.len i, (caches (n - 1)).weightsLen ≤ 0) (k : ℕ) :
    ¬ Chosen nodeList b used (i + 1) k := by
  rintro ⟨hik, hk, a, ⟨⟨vs, hw⟩, -⟩, -⟩
  have hkr : used k ∈ restNodes used nodeList.len i := mem_restNodes.mpr ⟨k, hik, hk, rfl⟩
  have hkS := (hlist.mem_restNodes_iff.mp hkr).2
  obtain ⟨y, a, -, -, ⟨hy, hyS, hyf, -⟩, -⟩ := h.labels.crossing hw fun a ha => hkS ha.1
  have hyr := hlist.mem_restNodes_iff.mpr ⟨hy, hyS⟩
  exact absurd ((h.rest_pos_iff hlist hb hyr).mpr hyf) (not_lt.mpr (hle y hyr))

theorem Settled.chosen_scan (hlist : Listing used nodeList.len)
    (h : Settled nodeList b (firstNodes used (i + 1)) caches)
    (hb : b ∈ firstNodes used (i + 1)) (k : ℕ) :
    Chosen nodeList b used (i + 1) k ↔ k < nodeList.len ∧
      used k = ((restNodes used nodeList.len i).foldl (minStep caches) (-1, 0)).2 := by
  rcases foldl_minStep caches (restNodes used nodeList.len i) with
    ⟨he, hle⟩ | ⟨before, n, behind, hns, he, hpos, hfirst, hmin⟩
  · rw [he]
    apply iff_of_false
    · exact h.not_chosen hlist hb hle k
    · rintro ⟨hk, hzero⟩
      have hone := (hlist.range k hk).1
      dsimp only at hzero
      omega
  · rw [he]
    obtain ⟨hlt, hat, -⟩ := restNodes_split hns
    have hchosen := h.chosen_first hlist hb hns hpos hfirst hmin
    constructor
    · intro hk
      rw [hk.unique hchosen]
      exact ⟨hlt, hat⟩
    · rintro ⟨hk, hused⟩
      rw [hlist.inj k hk _ hlt (hused.trans hat.symm)]
      exact hchosen

structure Turn (nodeList : DijkstraNodeList) (b : ℕ) (s : LoopState) : Prop where
  head : Head nodeList b s
  arranged : Arranged nodeList b s.i s.usedNodesId
  choice : ∀ k, Chosen nodeList b s.usedNodesId s.i k ↔
    k < nodeList.len ∧ s.usedNodesId k = s.useNode

theorem walk_pos {v c : ℕ} {vs : List ℕ} (hv : v ≠ b) (h : Walk (NodeEdge nodeList) b v vs c) :
    0 < c := by
  cases h with
  | nil => exact absurd rfl hv
  | snoc _ he => exact Nat.add_pos_right _ he.pos

theorem turn_start (hb : nodeList.Has b) : Turn nodeList b (startState nodeList.len b) := by
  refine ⟨head_start hb, .start, ?_⟩
  intro k
  have hused : ∀ j < nodeList.len, (startState nodeList.len b).usedNodesId j = j + 1 :=
    fun j hj => if_pos hj
  have hzero : Distance nodeList b b 0 := ⟨⟨[], .nil⟩, fun _ _ _ => Nat.zero_le _⟩
  have hone := hb.1
  have hlen := hb.2
  have hchosen : Chosen nodeList b (startState nodeList.len b).usedNodesId 0 (b - 1) := by
    have hat : (startState nodeList.len b).usedNodesId (b - 1) = b := by
      rw [hused _ (by omega)]
      omega
    refine ⟨Nat.zero_le _, by omega, 0, by rw [hat]; exact hzero, ?_⟩
    intro j _ hj c hd
    by_cases hjb : j = b - 1
    · omega
    · left
      obtain ⟨vs, hw⟩ := hd.walk
      refine walk_pos ?_ hw
      rw [hused j hj]
      omega
  constructor
  · intro hk
    rw [hk.unique hchosen]
    refine ⟨hchosen.lt, ?_⟩
    rw [hused _ hchosen.lt]
    exact Nat.sub_add_cancel hone
  · rintro ⟨hk, he⟩
    have hkb : k + 1 = b := (hused k hk).symm.trans he
    obtain rfl : k = b - 1 := by omega
    exact hchosen

theorem mem_restNodes_swap {len v : ℕ} (hik : i ≤ k) (hk : k < len) :
    v ∈ restNodes (used ∘ Equiv.swap i k) len i ↔ ∃ j, i ≤ j ∧ j < len ∧ j ≠ k ∧ used j = v := by
  rw [mem_restNodes]
  constructor
  · rintro ⟨m, him, hm, rfl⟩
    rw [Function.comp_apply]
    by_cases hmk : m = k
    · rw [hmk, Equiv.swap_apply_right]
      exact ⟨i, le_rfl, by omega, by omega, rfl⟩
    · rw [Equiv.swap_apply_of_ne_of_ne (by omega) hmk]
      exact ⟨m, him.le, hm, hmk, rfl⟩
  · rintro ⟨j, hij, hj, hjk, rfl⟩
    by_cases hji : j = i
    · refine ⟨k, by omega, hk, ?_⟩
      rw [Function.comp_apply, Equiv.swap_apply_right, hji]
    · refine ⟨j, by omega, hj, ?_⟩
      rw [Function.comp_apply, Equiv.swap_apply_of_ne_of_ne hji hjk]

theorem Turn.fits_iff {s : LoopState} (h : Turn nodeList b s) (hx0 : s.useNode ≠ 0)
    (hik : s.i ≤ k) (hk : k < nodeList.len) (hxk : s.usedNodesId k = s.useNode) :
    (∀ v ∈ restNodes (s.usedNodesId ∘ Equiv.swap s.i k) nodeList.len s.i,
        Fits nodeList s.useNode (s.allPathCache (s.useNode - 1)) v) ↔
      SumsFit nodeList b s.i s.usedNodesId := by
  obtain ⟨hx, hxS, hxf, hmin⟩ := h.head.next.resolve_left fun h => hx0 h.1
  have hchosen := (h.choice k).mpr ⟨hk, hxk⟩
  have hdist := h.head.settled.distance hx hxS hxf hmin
  have hcast := h.head.settled.label_cast hx
  have hnn := h.head.settled.weightsLen_nonneg hx
  constructor
  · intro hfits k' a hk' hd j hij hj hjk hpos
    obtain rfl := hchosen.unique hk'
    rw [hxk] at hd hpos ⊢
    obtain rfl := hd.unique hdist
    have hleft : s.usedNodesId j ∈
        restNodes (s.usedNodesId ∘ Equiv.swap s.i k) nodeList.len s.i :=
      (mem_restNodes_swap hik hk).mpr ⟨j, hij, hj, hjk, rfl⟩
    have hsum := (hfits _ hleft hpos).2
    rwa [← hcast] at hsum
  · intro hsums v hv hpos
    obtain ⟨j, hij, hj, hjk, rfl⟩ := (mem_restNodes_swap hik hk).mp hv
    have hsum := hsums k _ hchosen (hxk.symm ▸ hdist) j hij hj hjk (by rw [hxk]; exact hpos)
    rw [hxk, hcast] at hsum
    refine ⟨?_, hsum⟩
    simp only [int32Min]
    omega

theorem Turn.round {maxNodeNum : ℕ} (hmax : maxNodeNum ≤ 65535) (hlen : nodeList.len ≤ maxNodeNum)
    (hb : nodeList.Has b) {s : LoopState} (h : Turn nodeList b s) (hx0 : s.useNode ≠ 0) :
    (Dijkstra.round maxNodeNum nodeList nodeList.len s = .error .intOverflow ∧
      ¬ SumsFit nodeList b s.i s.usedNodesId) ∨
    ∃ s', Dijkstra.round maxNodeNum nodeList nodeList.len s = .ok s' ∧ s'.i = s.i + 1 ∧
      SumsFit nodeList b s.i s.usedNodesId ∧ Turn nodeList b s' := by
  obtain ⟨k, hik, hk, hxk⟩ := h.head.exists_place hx0
  have hiff := h.fits_iff hx0 hik hk hxk
  rcases h.head.round_at hmax hlen hb hx0 hik hk hxk with ⟨he, hover⟩ | ⟨caches', he, hfits, h'⟩
  · exact Or.inl ⟨he, mt hiff.mpr hover⟩
  · have harranged : Arranged nodeList b (s.i + 1) (s.usedNodesId ∘ Equiv.swap s.i k) :=
      .swap h.arranged ((h.choice k).mpr ⟨hk, hxk⟩)
    have hbegin := h'.root.resolve_left fun h => Nat.succ_ne_zero _ h.1
    exact Or.inr ⟨_, he, rfl, hiff.mp hfits, h', harranged,
      h'.settled.chosen_scan h'.listing hbegin⟩

theorem Turn.mainLoop {maxNodeNum : ℕ} (hmax : maxNodeNum ≤ 65535)
    (hlen : nodeList.len ≤ maxNodeNum) (hb : nodeList.Has b) (n : ℕ) {s : LoopState}
    (hn : s.i + n = nodeList.len) (h : Turn nodeList b s) :
    (Dijkstra.mainLoop maxNodeNum nodeList nodeList.len n s = .error .intOverflow ∧
      ¬ ∀ i used, s.i ≤ i → Arranged nodeList b i used → SumsFit nodeList b i used) ∨
    (Dijkstra.mainLoop maxNodeNum nodeList nodeList.len n s ≠ .error .intOverflow ∧
      ∀ i used, s.i ≤ i → Arranged nodeList b i used → SumsFit nodeList b i used) := by
  induction n generalizing s with
  | zero =>
    refine Or.inr ⟨by rw [Dijkstra.mainLoop]; simp, ?_⟩
    intro i used hi _ k a hk
    have hik := hk.behind
    have hklt := hk.lt
    omega
  | succ n ih =>
    rw [Dijkstra.mainLoop]
    by_cases hx : s.useNode = 0
    · rw [if_pos hx]
      refine Or.inr ⟨by simp, ?_⟩
      have hnone : ∀ k, ¬ Chosen nodeList b s.usedNodesId s.i k := by
        intro k hk
        obtain ⟨hklt, hzero⟩ := (h.choice k).mp hk
        have hone := (h.head.listing.range k hklt).1
        omega
      intro i used hi ha k a hk
      exfalso
      rcases Nat.eq_or_lt_of_le hi with rfl | hi
      · exact hnone k (h.arranged.unique ha ▸ hk)
      · obtain ⟨used₀, k₀, ha₀, hk₀⟩ := ha.exists_chosen hi
        exact hnone k₀ (h.arranged.unique ha₀ ▸ hk₀)
    · rw [if_neg hx]
      rcases h.round hmax hlen hb hx with ⟨he, hover⟩ | ⟨s', he, hi', hfits, h'⟩
      · left
        rw [he]
        exact ⟨rfl, fun hall => hover (hall _ _ le_rfl h.arranged)⟩
      · rw [he]
        have hall : (∀ i used, s.i ≤ i → Arranged nodeList b i used → SumsFit nodeList b i used) ↔
            ∀ i used, s'.i ≤ i → Arranged nodeList b i used → SumsFit nodeList b i used := by
          rw [hi']
          constructor
          · exact fun hall i used hi => hall i used (Nat.le_of_succ_le hi)
          · intro hall i used hi ha
            rcases Nat.eq_or_lt_of_le hi with rfl | hi
            · rw [← h.arranged.unique ha]
              exact hfits
            · exact hall i used hi ha
        rw [hall]
        exact ih (by omega) h'

def weightSum (nodeList : DijkstraNodeList) : ℕ → List ℕ → ℤ
  | _, [] => 0
  | u, v :: vs => (nodeList.nodes (u - 1)).weight (v - 1) + weightSum nodeList v vs

theorem weightSum_append {v c : ℕ} {vs : List ℕ} (h : Walk (NodeEdge nodeList) b v vs c)
    (ws : List ℕ) :
    weightSum nodeList b (vs ++ ws) = weightSum nodeList b vs + weightSum nodeList v ws := by
  induction h generalizing ws with
  | nil => rw [List.nil_append, weightSum, zero_add]
  | @snoc u v vs c k _ _ ih =>
    rw [List.append_assoc, ih, ih, List.singleton_append, weightSum, weightSum, weightSum]
    ring

theorem weightSum_walk {v c : ℕ} {vs : List ℕ} (h : Walk (NodeEdge nodeList) b v vs c) :
    weightSum nodeList b vs = c := by
  induction h with
  | nil => rfl
  | snoc hw he ih =>
    rw [weightSum_append hw, ih, weightSum, weightSum, he.2.2.2]
    push_cast
    ring

theorem dijkstraGetPath_overflow_iff {maxNodeNum : ℕ} (hmax : maxNodeNum ≤ 65535)
    (hlen : nodeList.len ≤ maxNodeNum) {endNode : ℕ} (hb : nodeList.Has b)
    (he : nodeList.Has endNode) (resultList : PathNodeCache) :
    dijkstraGetPath maxNodeNum (some nodeList) b endNode resultList = .error .intOverflow ↔
      ¬ ∀ i used, Arranged nodeList b i used → SumsFit nodeList b i used := by
  have hloop := (turn_start hb).mainLoop hmax hlen hb nodeList.len (Nat.zero_add _)
  have hzero : (∀ i used, (startState nodeList.len b).i ≤ i → Arranged nodeList b i used →
      SumsFit nodeList b i used) ↔ ∀ i used, Arranged nodeList b i used →
      SumsFit nodeList b i used :=
    forall₂_congr fun i _ => imp_iff_right (Nat.zero_le i)
  rw [hzero] at hloop
  rw [dijkstraGetPath_eq hmax hlen hb he]
  rcases hloop with ⟨hrun, hover⟩ | ⟨hrun, hfits⟩
  · rw [hrun]
    exact iff_of_true rfl hover
  · refine iff_of_false ?_ (not_not_intro hfits)
    intro hbad
    cases hs : Dijkstra.mainLoop maxNodeNum nodeList nodeList.len nodeList.len
        (startState nodeList.len b) with
    | error f =>
      rw [hs] at hbad hrun
      obtain rfl : f = .intOverflow := Except.error.inj hbad
      exact hrun rfl
    | ok s =>
      rw [hs] at hbad
      simp only [bind, Except.bind] at hbad
      split_ifs at hbad
      all_goals cases hbad

/-- No sum overflows, and a path is reported with the positive sum of its weights, exactly if the
weights to the nodes settled later or never can all be added to the distances. -/
theorem dijkstraGetPath_sums_iff (maxNodeNum : ℕ) (hmax : maxNodeNum ≤ 65535)
    (nodeList : DijkstraNodeList) (hlen : nodeList.len ≤ maxNodeNum) (beginNode endNode : ℕ)
    (hb : nodeList.Has beginNode) (he : nodeList.Has endNode) (resultList : PathNodeCache) :
    (∃ code out, dijkstraGetPath maxNodeNum (some nodeList) beginNode endNode resultList =
        .ok (code, out) ∧
      (code = 0 → 0 < out.weightsLen ∧
        out.weightsLen = weightSum nodeList beginNode out.path)) ↔
    ∀ i used, Arranged nodeList beginNode i used → SumsFit nodeList beginNode i used := by
  have hover := dijkstraGetPath_overflow_iff hmax hlen hb he resultList
  constructor
  · rintro ⟨code, out, hrun, -⟩
    by_contra hnot
    rw [hover.mpr hnot] at hrun
    cases hrun
  · intro hfits
    obtain ⟨code, out, hrun, hcode, hpath, -⟩ := dijkstraGetPath_spec maxNodeNum hmax nodeList hlen
      beginNode endNode hb he resultList fun hbad => hover.mp hbad hfits
    refine ⟨code, out, hrun, ?_⟩
    intro hzero
    obtain ⟨c, hw, -, hc, -⟩ := hpath hzero
    refine ⟨?_, hc.trans (weightSum_walk hw).symm⟩
    rw [hc]
    exact Int.natCast_pos.mpr (walk_pos (hcode.mp hzero).1.symm hw)

theorem dijkstraGetPath_sums_oneEdge :
    ∃ out, dijkstraGetPath 5 (some oneEdge) 1 2 .zero = .ok (0, out) ∧
      (0 < out.weightsLen ∧ out.weightsLen = weightSum oneEdge 1 out.path) ∧
      ∀ i used, Arranged oneEdge 1 i used → SumsFit oneEdge 1 i used := by
  have hrun : (dijkstraGetPath 5 (some oneEdge) 1 2 .zero).map (fun r =>
      (r.1, r.2.weightsLen, weightSum oneEdge 1 r.2.path)) = .ok (0, 7, 7) := by
    decide +kernel
  obtain ⟨⟨code, out⟩, he, hout⟩ := exists_ok_of_map hrun
  simp only [Prod.mk.injEq] at hout
  obtain ⟨rfl, hlen, hsum⟩ := hout
  have hexact : 0 < out.weightsLen ∧ out.weightsLen = weightSum oneEdge 1 out.path :=
    ⟨by omega, hlen.trans hsum.symm⟩
  refine ⟨out, he, hexact, ?_⟩
  exact (dijkstraGetPath_sums_iff 5 (by decide) oneEdge (by decide) 1 2 ⟨by decide, by decide⟩
    ⟨by decide, by decide⟩ .zero).mp ⟨0, out, he, fun _ => hexact⟩

def heavyLine : DijkstraNodeList :=
  ⟨fun i => ⟨i + 1, fun j => if j = i + 1 then int32Max else 0⟩, 3⟩

theorem dijkstraGetPath_heavy :
    (1 ≤ heavyLine.len ∧ heavyLine.len ≤ 5) ∧ heavyLine.Has 1 ∧ heavyLine.Has 3 ∧
      (∀ i j, int32Min ≤ (heavyLine.nodes i).weight j ∧
        (heavyLine.nodes i).weight j ≤ int32Max) ∧
      dijkstraGetPath 5 (some heavyLine) 1 3 .zero = .error .intOverflow := by
  refine ⟨by decide, ⟨by decide, by decide⟩, ⟨by decide, by decide⟩, ?_, rfl⟩
  intro i j
  simp only [heavyLine]
  split_ifs <;> decide

end HsCommon.Dijkstra
