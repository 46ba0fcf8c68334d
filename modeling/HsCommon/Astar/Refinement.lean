import HsCommon.Astar.FindPath
import HsCommon.Astar.Exploration

/-!
# The array search refines the exploration

The locals and the heap of `hs_astar_find_path` represent an exploration: each
open or closed trail is a node whose parent link leads to the node of the trail
behind it. One round of the source's loop is one round of the exploration, unless
the allocator runs out on the way.
-/

namespace HsCommon.Astar
open LabelSetting Exploration

def manhattan (d c : Cell) : ℕ := (c.1 - d.1) + (d.1 - c.1) + ((c.2 - d.2) + (d.2 - c.2))

def enterable (aa : AstarArray) (n : ℤ × ℤ) : Option Cell :=
  if isBlocked aa n.1 n.2 = 0 then none else some (n.1.toNat, n.2.toNat)

def successors (aa : AstarArray) (c : Cell) : List Cell :=
  (neighbours c.1 c.2).filterMap (enterable aa)

theorem abs_sub_natCast (a b : ℕ) : |(a : ℤ) - b| = ((a - b) + (b - a) : ℕ) := by
  rcases le_total a b with h | h
  · rw [abs_of_nonpos (by omega)]
    omega
  · rw [abs_of_nonneg (by omega)]
    omega

theorem calcHvalue_eq (c d : Cell) : calcHvalue c.1 c.2 d.1 d.2 = (manhattan d c : ℕ) := by
  rw [calcHvalue, abs_sub_natCast, abs_sub_natCast, manhattan]
  push_cast
  ring

theorem enterable_eq_some {aa : AstarArray} {n : ℤ × ℤ} {c : Cell} :
    enterable aa n = some c ↔ aa.Free c ∧ n = (↑c.1, ↑c.2) := by
  simp only [enterable]
  by_cases hneg : n.1 < 0 ∨ n.2 < 0
  · rw [isBlocked_neg aa hneg, if_pos rfl]
    constructor
    · intro h
      cases h
    · rintro ⟨-, rfl⟩
      simp only at hneg
      omega
  · obtain ⟨m, rfl⟩ : ∃ m : Cell, n = (↑m.1, ↑m.2) := by
      refine ⟨(n.1.toNat, n.2.toNat), Prod.ext ?_ ?_⟩ <;> simp only <;> omega
    have hb := isBlocked_natCast aa m
    simp only at hb ⊢
    rw [hb]
    simp only [Int.toNat_natCast]
    by_cases hf : aa.Free m
    · simp only [if_pos hf, Prod.mk.eta, Prod.mk.injEq, Nat.cast_inj]
      constructor
      · intro h
        obtain rfl : m = c := by simpa using h
        exact ⟨hf, rfl, rfl⟩
      · rintro ⟨-, h1, h2⟩
        simp [Prod.ext h1 h2]
    · simp only [if_neg hf, if_true, Prod.mk.injEq, Nat.cast_inj]
      constructor
      · intro h
        cases h
      · rintro ⟨hc, h1, h2⟩
        obtain rfl : m = c := Prod.ext h1 h2
        exact absurd hc hf

theorem mem_successors {aa : AstarArray} {c v : Cell} :
    v ∈ successors aa c ↔ aa.Free v ∧ Adjacent c v := by
  simp only [successors, neighbours, List.mem_filterMap, List.mem_cons, List.not_mem_nil, or_false,
    enterable_eq_some, Adjacent]
  constructor
  · rintro ⟨n, hn, hf, rfl⟩
    refine ⟨hf, ?_⟩
    simp only [Prod.mk.injEq] at hn
    omega
  · rintro ⟨hf, ha⟩
    refine ⟨(↑v.1, ↑v.2), ?_, hf, rfl⟩
    simp only [Prod.mk.injEq]
    omega

theorem consistent_manhattan (aa : AstarArray) (d : Cell) :
    Consistent (Edge (successors aa)) (manhattan d) := by
  rintro u v k ⟨hv, rfl⟩
  obtain ⟨-, ⟨hx, hy⟩ | ⟨hy, hx⟩⟩ := mem_successors.mp hv
  · rw [manhattan, manhattan, hx]
    omega
  · rw [manhattan, manhattan, hy]
    omega

abbrev Slot := NodePtr × Trail Cell

structure NodeRep (aa : AstarArray) (d : Cell) (nodes : NodePtr → AstarNode) (cls : List Slot)
    (x : Slot) : Prop where
  inside : aa.Inside x.2.here
  index : (nodes x.1).index = aa.indexOf x.2.here
  g : (nodes x.1).g = (x.2.cost : ℕ)
  f : (nodes x.1).f = (x.2.total (manhattan d) : ℕ)
  parent : (x.2.back = [] ∧ (nodes x.1).parent = none) ∨
    ∃ u ∈ cls, x.2.back = u.2.cells ∧ (nodes x.1).parent = some u.1

/-- The nodes of the open slots stand at the front of the array, those of the closed slots, latest
first, at its end, and nothing between. -/
structure Placed (l : SearchLocals) (opn cls : List Slot) : Prop where
  openNum : l.openNum = opn.length
  closedNum : l.closedNum = cls.length
  curr : l.closedCurrIndex + cls.length = 16383
  openAt : ∀ i (h : i < opn.length), l.openCloseNodes i = some (opn[i]).1
  closedAt : ∀ i (h : i < cls.length),
    l.openCloseNodes (l.closedCurrIndex + 1 + i) = some (cls[i]).1
  gap : ∀ i, opn.length ≤ i → i ≤ l.closedCurrIndex → l.openCloseNodes i = none

structure Held (aa : AstarArray) (d : Cell) (s : AstarState) (opn cls : List Slot) : Prop where
  rep : ∀ x ∈ opn ++ cls, NodeRep aa d s.nodes cls x
  issued : ∀ x ∈ opn ++ cls, s.Issued x.1
  nodup : ((opn ++ cls).map Prod.fst).Nodup

/-- The locals and the heap represent the open slots `opn` and the closed slots `cls`; `base` is
where the allocator's cursor stood when the search began. -/
structure Sim (aa : AstarArray) (d : Cell) (base : ℕ) (l : SearchLocals) (s : AstarState)
    (opn cls : List Slot) : Prop extends Placed l opn cls, Held aa d s opn cls where
  ok : s.Ok
  inited : s.allocData.inited ≠ 0
  cursor : s.cursor = base + (opn.length + cls.length)
  room : s.cursor ≤ 4095

def exploration (opn cls : List Slot) : Exploration Cell := ⟨opn.map Prod.snd, cls.map Prod.snd⟩

theorem exploration_size (opn cls : List Slot) :
    (exploration opn cls).size = opn.length + cls.length := by
  simp [exploration, Exploration.size]

variable {aa : AstarArray} {d : Cell} {base : ℕ} {l : SearchLocals} {s : AstarState}
  {opn cls : List Slot}

theorem NodeRep.congr {nodes nodes' : NodePtr → AstarNode} {cls' : List Slot} {x : Slot}
    (h : NodeRep aa d nodes cls x) (hn : nodes' x.1 = nodes x.1) (hc : ∀ u ∈ cls, u ∈ cls') :
    NodeRep aa d nodes' cls' x := by
  refine ⟨h.inside, by rw [hn, h.index], by rw [hn, h.g], by rw [hn, h.f], ?_⟩
  rw [hn]
  exact h.parent.imp id fun ⟨u, hu, hb, hp⟩ => ⟨u, hc u hu, hb, hp⟩

theorem Sim.fits (h : Sim aa d base l s opn cls) : opn.length + cls.length ≤ 4095 := by
  have h1 := h.cursor
  have h2 := h.room
  omega

theorem setNode_ok {p : NodePtr} {n : AstarNode} (h : s.Ok) : (setNode s p n).Ok :=
  ⟨h.idle, h.list_le, h.index_le, h.block, h.fresh, h.inj⟩

theorem setNode_issued {p q : NodePtr} {n : AstarNode} (h : s.Issued q) :
    (setNode s p n).Issued q := h

theorem holdsIndex_slot {x : Slot} (hx : NodeRep aa d s.nodes cls x) {v : Cell}
    (hv : aa.Inside v) :
    holdsIndex s.nodes (aa.indexOf v) (some x.1) = true ↔ x.2.here = v := by
  simp only [holdsIndex, beq_iff_eq, hx.index]
  exact ⟨indexOf_injective hx.inside hv, fun h => by rw [h]⟩

theorem isInClosed_eq_zero {nodes : NodePtr → AstarNode} {closedList : ℕ → Option NodePtr}
    {n width height x y : ℕ} : isInClosed nodes closedList n width height x y = 0 ↔
      ∃ i < n, holdsIndex nodes (hsCoord2index x y width height) (closedList i) = true := by
  have hcode : ∀ q : Bool, (if q = true then (0 : ℤ) else -1) = 0 ↔ q = true := by decide
  simp only [isInClosed]
  rw [hcode, List.any_eq_true]
  simp only [List.mem_range]

/-- The closed test sees every closed slot but the first one closed. -/
theorem Sim.isInClosed_iff (h : Sim aa d base l s opn cls) {v : Cell} (hv : aa.Inside v) :
    isInClosed s.nodes (fun i => l.openCloseNodes (l.closedCurrIndex + i)) l.closedNum
      aa.width aa.height v.1 v.2 = 0 ↔ v ∈ seen (exploration opn cls).cls := by
  have hfits := h.fits
  have hcurr := h.curr
  have hhead : l.openCloseNodes l.closedCurrIndex = none := h.gap _ (by omega) le_rfl
  have hslot : ∀ i (hi : i < cls.length),
      holdsIndex s.nodes (aa.indexOf v) (l.openCloseNodes (l.closedCurrIndex + (i + 1))) = true ↔
        cls[i].2.here = v := by
    intro i hi
    have he : l.closedCurrIndex + (i + 1) = l.closedCurrIndex + 1 + i := by omega
    rw [he, h.closedAt i hi]
    exact holdsIndex_slot (h.rep _ (List.mem_append_right _ (List.getElem_mem hi))) hv
  rw [isInClosed_eq_zero, hsCoord2index_inside hv, h.closedNum]
  simp only [seen, exploration, List.mem_map]
  constructor
  · rintro ⟨i, hi, hf⟩
    cases i with
    | zero =>
      rw [Nat.add_zero, hhead] at hf
      cases hf
    | succ i =>
      refine ⟨cls[i].2, ?_, (hslot i (by omega)).mp hf⟩
      rw [← List.map_dropLast]
      apply List.mem_map_of_mem
      rw [List.mem_iff_getElem]
      exact ⟨i, by simp; omega, by simp⟩
  · rintro ⟨t, ht, rfl⟩
    rw [← List.map_dropLast] at ht
    obtain ⟨x, hx, rfl⟩ := List.mem_map.mp ht
    obtain ⟨i, hi, rfl⟩ := List.mem_iff_getElem.mp hx
    rw [List.length_dropLast] at hi
    refine ⟨i + 1, by omega, ?_⟩
    exact (hslot i (by omega)).mpr (by rw [List.getElem_dropLast])

theorem Sim.isInOpen_spec (h : Sim aa d base l s opn cls) {v : Cell} (hv : aa.Inside v) :
    match isInOpen s.nodes l.openCloseNodes l.openNum aa.width aa.height v.1 v.2 with
    | none => v ∉ (exploration opn cls).opn.map Trail.here
    | some pos => ∃ hp : pos < opn.length, opn[pos].2.here = v := by
  have hslot : ∀ i (hi : i < opn.length),
      holdsIndex s.nodes (aa.indexOf v) (l.openCloseNodes i) = true ↔ opn[i].2.here = v := by
    intro i hi
    rw [h.openAt i hi]
    exact holdsIndex_slot (h.rep _ (List.mem_append_left _ (List.getElem_mem hi))) hv
  have hnn : ¬ aa.indexOf v < 0 := by simp only [AstarArray.indexOf]; omega
  simp only [isInOpen, hsCoord2index_inside hv, if_neg hnn, isInOpenByindex, h.openNum]
  split
  · rename_i hnone
    rw [List.find?_eq_none] at hnone
    intro hmem
    simp only [exploration, List.map_map, List.mem_map] at hmem
    obtain ⟨x, hx, rfl⟩ := hmem
    obtain ⟨i, hi, rfl⟩ := List.mem_iff_getElem.mp hx
    exact hnone i (List.mem_range.mpr hi) ((hslot i hi).mpr rfl)
  · rename_i pos hsome
    have hlt : pos < opn.length := List.mem_range.mp (List.mem_of_find?_eq_some hsome)
    have hfound := List.find?_some hsome
    exact ⟨hlt, (hslot pos hlt).mp hfound⟩

theorem Sim.minF_prefix (h : Sim aa d base l s opn cls)
    (hpos : ∀ x ∈ opn, 0 < x.2.total (manhattan d)) (n : ℕ) (hn : n ≤ opn.length) :
    (List.range n).foldl (minFStep s.nodes l.openCloseNodes) (0, 0) =
      match lastMin (Trail.total (manhattan d)) ((opn.map Prod.snd).take n) with
      | none => (0, 0)
      | some (k, t) => ((t.total (manhattan d) : ℕ), k) := by
  induction n with
  | zero => rfl
  | succ n ih =>
    have hlt : n < opn.length := by omega
    have htake : (opn.map Prod.snd).take (n + 1) = (opn.map Prod.snd).take n ++ [opn[n].2] := by
      rw [List.take_succ_eq_append_getElem (by simpa using hlt), List.getElem_map]
    have hlen : ((opn.map Prod.snd).take n).length = n := by
      rw [List.length_take, List.length_map]
      omega
    have hf := (h.rep _ (List.mem_append_left _ (List.getElem_mem hlt))).f
    rw [List.range_succ, List.foldl_append, List.foldl_cons, List.foldl_nil, ih (by omega), htake,
      lastMin_append, hlen]
    simp only [minFStep, h.openAt n hlt, hf]
    cases hm : lastMin (Trail.total (manhattan d)) ((opn.map Prod.snd).take n) with
    | none => simp [lastMinStep]
    | some p =>
      have hmem : p.2 ∈ opn.map Prod.snd :=
        List.mem_of_mem_take (List.mem_of_getElem? (lastMin_spec (k := p.1) (a := p.2) hm).1)
      obtain ⟨x, hx, hxp⟩ := List.mem_map.mp hmem
      have hx0 := hpos x hx
      rw [hxp] at hx0
      simp only [lastMinStep]
      split_ifs with h1 h2 h2
      · rfl
      · omega
      · omega
      · rfl

theorem chosen_slot {k : ℕ} {t : Trail Cell}
    (hk : lastMin (Trail.total (manhattan d)) (exploration opn cls).opn = some (k, t)) :
    ∃ h : k < opn.length, opn[k].2 = t := by
  obtain ⟨hlt, hget⟩ := List.getElem?_eq_some_iff.mp (lastMin_spec hk).1
  simp only [exploration, List.length_map] at hlt
  simp only [exploration, List.getElem_map] at hget
  exact ⟨hlt, hget⟩

theorem Sim.getMinFIndex_eq (h : Sim aa d base l s opn cls)
    (hpos : (∀ x ∈ opn, 0 < x.2.total (manhattan d)) ∨ opn.length = 1) {k : ℕ} {t : Trail Cell}
    (hk : lastMin (Trail.total (manhattan d)) (exploration opn cls).opn = some (k, t)) :
    getMinFIndex s.nodes l.openCloseNodes l.openNum = k := by
  rw [getMinFIndex, h.openNum]
  rcases hpos with hpos | hone
  · have hp := h.minF_prefix hpos opn.length le_rfl
    rw [List.take_of_length_le (by simp)] at hp
    simp only [exploration] at hk
    rw [hk] at hp
    rw [hp]
  · obtain ⟨hlt, -⟩ := chosen_slot hk
    rw [hone]
    simp only [List.range_one, List.foldl_cons, List.foldl_nil, minFStep, h.openAt 0 (by omega),
      true_or, if_true]
    omega

theorem moveToClosed_nodes (l : SearchLocals) {k : ℕ} (hk : k < l.openNum)
    (hc : l.openNum ≤ l.closedCurrIndex) (i : ℕ) :
    (moveToClosed l k).openCloseNodes i =
      if i + 1 = l.openNum then none
      else if i = l.closedCurrIndex then l.openCloseNodes k
      else if k ≤ i ∧ i + 1 < l.openNum then l.openCloseNodes (i + 1)
      else l.openCloseNodes i := by
  have hmove : ∀ a : ℕ → Option NodePtr, Cells.move a k (k + 1) (l.openNum - k - 1) i =
      if k ≤ i ∧ i + 1 < l.openNum then a (i + 1) else a i := by
    intro a
    by_cases hi : k ≤ i ∧ i + 1 < l.openNum
    · obtain ⟨j, rfl⟩ := Nat.exists_eq_add_of_le hi.1
      rw [if_pos hi, Cells.move, Cells.write_inside _ _ _ _ (by rw [Cells.read_length]; omega),
        Cells.read_getElem]
      congr 1
      omega
    · rw [if_neg hi, Cells.move]
      by_cases hki : k ≤ i
      · exact Cells.write_of_ge a _ (by rw [Cells.read_length]; omega)
      · exact Cells.write_of_lt a _ (by omega)
  simp only [moveToClosed, Function.update_apply]
  by_cases hlast : i + 1 = l.openNum
  · rw [if_pos (by omega), if_pos hlast]
  · rw [if_neg (by omega), if_neg hlast]
    by_cases hki : k + 1 < l.openNum
    · rw [if_pos hki, hmove]
      simp only [Function.update_apply]
      split_ifs <;> first | rfl | omega
    · rw [if_neg hki, Function.update_apply]
      split_ifs <;> first | rfl | omega

theorem Sim.moveToClosed (h : Sim aa d base l s opn cls) {k : ℕ} (hk : k < opn.length) :
    Sim aa d base (Astar.moveToClosed l k) s (opn.eraseIdx k) (opn[k] :: cls) := by
  have hfits := h.fits
  have hcurr := h.curr
  have hnum := h.openNum
  have hlen : (opn.eraseIdx k).length = opn.length - 1 := List.length_eraseIdx_of_lt hk
  have hopen : (Astar.moveToClosed l k).openNum = opn.length - 1 := by
    simp only [Astar.moveToClosed, hnum]
    exact u16Sub_eq (by omega) (by omega)
  have hclosed : (Astar.moveToClosed l k).closedNum = cls.length + 1 := by
    simp only [Astar.moveToClosed, h.closedNum]
    exact u16Add_eq (by omega)
  have hindex : (Astar.moveToClosed l k).closedCurrIndex = l.closedCurrIndex - 1 := by
    simp only [Astar.moveToClosed]
    exact u16Sub_eq (by omega) (by omega)
  have hnodes := moveToClosed_nodes l (k := k) (by omega) (by omega)
  have hperm : (opn.eraseIdx k ++ opn[k] :: cls).Perm (opn ++ cls) :=
    List.perm_middle.trans ((List.getElem_cons_eraseIdx_perm hk).append_right cls)
  refine ⟨⟨by rw [hopen, hlen], by rw [hclosed, List.length_cons], ?_, ?_, ?_, ?_⟩, ⟨?_, ?_, ?_⟩,
    h.ok, h.inited, ?_, h.room⟩
  · rw [hindex, List.length_cons]
    omega
  · intro i hi
    rw [hlen] at hi
    rw [hnodes, if_neg (by omega), if_neg (by omega), List.getElem_eraseIdx]
    by_cases hik : i < k
    · rw [if_neg (by omega), dif_pos hik, h.openAt i (by omega)]
    · rw [if_pos (by omega), dif_neg hik, h.openAt (i + 1) (by omega)]
  · intro i hi
    rw [hindex, hnodes]
    cases i with
    | zero =>
      rw [if_neg (by omega), if_pos (by omega), h.openAt k hk, List.getElem_cons_zero]
    | succ i =>
      rw [List.length_cons] at hi
      rw [if_neg (by omega), if_neg (by omega), if_neg (by omega), List.getElem_cons_succ]
      have he : l.closedCurrIndex - 1 + 1 + (i + 1) = l.closedCurrIndex + 1 + i := by omega
      rw [he, h.closedAt i (by omega)]
  · intro i hi hle
    rw [hlen] at hi
    rw [hindex] at hle
    rw [hnodes]
    by_cases hlast : i + 1 = l.openNum
    · rw [if_pos hlast]
    · rw [if_neg hlast, if_neg (by omega), if_neg (by omega)]
      exact h.gap i (by omega) (by omega)
  · intro x hx
    exact (h.rep x (hperm.mem_iff.mp hx)).congr rfl fun u hu => List.mem_cons_of_mem _ hu
  · intro x hx
    exact h.issued x (hperm.mem_iff.mp hx)
  · exact ((hperm.map Prod.fst).nodup_iff).mpr h.nodup
  · rw [h.cursor, hlen, List.length_cons]
    omega

theorem Placed.push (h : Placed l opn cls) (hfits : opn.length + cls.length ≤ 4095) (q : NodePtr)
    (t : Trail Cell) :
    Placed { l with
      openCloseNodes := Function.update l.openCloseNodes l.openNum (some q)
      openNum := u16Add l.openNum 1 } (opn ++ [(q, t)]) cls := by
  have hcurr := h.curr
  have hadd : u16Add l.openNum 1 = opn.length + 1 := by
    rw [h.openNum]
    exact u16Add_eq (by omega)
  refine ⟨?_, h.closedNum, hcurr, ?_, ?_, ?_⟩
  · simp only [hadd, List.length_append, List.length_singleton]
  · intro i hi
    rw [List.length_append, List.length_singleton] at hi
    simp only [Function.update_apply, h.openNum]
    by_cases hil : i = opn.length
    · subst hil
      rw [if_pos rfl, List.getElem_concat_length rfl]
    · rw [if_neg hil, h.openAt i (by omega), List.getElem_append_left]
  · intro i hi
    simp only [Function.update_apply, h.openNum]
    rw [if_neg (by omega), h.closedAt i hi]
  · intro i hi hle
    rw [List.length_append, List.length_singleton] at hi
    simp only at hle
    simp only [Function.update_apply, h.openNum]
    rw [if_neg (by omega), h.gap i (by omega) hle]

theorem nodeRep_extend {nodes : NodePtr → AstarNode} {p q : NodePtr} {cur : Trail Cell}
    (hcur : (p, cur) ∈ cls) {v : Cell} (hv : aa.Inside v) (hindex : (nodes q).index = aa.indexOf v)
    (hg : (nodes q).g = ((cur.extend v).cost : ℕ))
    (hf : (nodes q).f = (nodes q).g + (manhattan d v : ℕ)) (hparent : (nodes q).parent = some p) :
    NodeRep aa d nodes cls (q, cur.extend v) := by
  refine ⟨hv, hindex, hg, ?_, Or.inr ⟨(p, cur), hcur, rfl, hparent⟩⟩
  rw [hf, hg, Trail.total, Trail.extend_here]
  push_cast
  rfl

theorem mem_push {x y : Slot} : x ∈ (opn ++ [y]) ++ cls ↔ x = y ∨ x ∈ opn ++ cls := by
  simp only [List.mem_append, List.mem_singleton]
  tauto

theorem Held.push (h : Held aa d s opn cls) {s' : AstarState} {q : NodePtr} {t : Trail Cell}
    (hnew : ¬ s.Issued q) (hq : s'.Issued q) (hissued : ∀ r, s.Issued r → s'.Issued r)
    (hkeep : ∀ r, s.Issued r → s'.nodes r = s.nodes r) (hrep : NodeRep aa d s'.nodes cls (q, t)) :
    Held aa d s' (opn ++ [(q, t)]) cls := by
  constructor
  · intro x hx
    rcases mem_push.mp hx with rfl | hold
    · exact hrep
    · exact (h.rep x hold).congr (hkeep x.1 (h.issued x hold)) fun u hu => hu
  · intro x hx
    rcases mem_push.mp hx with rfl | hold
    · exact hq
    · exact hissued x.1 (h.issued x hold)
  · have hp : ((opn ++ [(q, t)]) ++ cls).Perm ((q, t) :: (opn ++ cls)) := by
      rw [List.append_assoc]
      exact List.perm_middle
    rw [(hp.map Prod.fst).nodup_iff, List.map_cons, List.nodup_cons]
    refine ⟨fun hmem => ?_, h.nodup⟩
    obtain ⟨x, hx, hxq⟩ := List.mem_map.mp hmem
    have hissued := h.issued x hx
    rw [hxq] at hissued
    exact hnew hissued

theorem Sim.pushOpen (h : Sim aa d base l s opn cls) {p : NodePtr} {cur : Trail Cell}
    (hcur : (p, cur) ∈ cls) {v : Cell} (hv : aa.Inside v) :
    (s.cursor = 4095 ∧ Astar.pushOpen aa d.1 d.2 p v.1 v.2 l s = .error .nullPointer) ∨
    ∃ l' s' q, Astar.pushOpen aa d.1 d.2 p v.1 v.2 l s = .ok (l', s') ∧
      Sim aa d base l' s' (opn ++ [(q, cur.extend v)]) cls := by
  have hc := h.cursor
  have hroom := h.room
  have hpiss : s.Issued p := h.issued (p, cur) (List.mem_append_right _ hcur)
  have hprep := h.rep (p, cur) (List.mem_append_right _ hcur)
  rcases astarNodeAlloc_spec h.ok h.inited with ⟨hfull, he⟩ | ⟨hlt, q, hq, hok, hext, hcursor, hiss,
    hnew, hkeep⟩
  · exact Or.inl ⟨by omega, by simp only [Astar.pushOpen, he]⟩
  · right
    generalize hs₁ : (astarNodeAlloc s).2 = s₁ at hok hext hcursor hiss hkeep
    have hpair : astarNodeAlloc s = (some q, s₁) := Prod.ext hq hs₁
    have hg : calcGvalue s₁.nodes (some p) = ((cur.extend v).cost : ℕ) := by
      simp only [calcGvalue, hkeep p hpiss, hprep.g, Trail.extend_cost]
      push_cast
      rfl
    refine ⟨_, _, q, by rw [Astar.pushOpen, hpair], ?_⟩
    refine ⟨h.toPlaced.push h.fits q _, h.toHeld.push hnew (setNode_issued hiss) ?_ ?_ ?_,
      setNode_ok hok, ?_, ?_, ?_⟩
    · exact fun r hr => setNode_issued (hext.issued hr)
    · intro r hr
      have hne : r ≠ q := fun heq => hnew (heq ▸ hr)
      exact (Function.update_of_ne hne _ _).trans (hkeep r hr)
    · simp only [setNode]
      refine nodeRep_extend hcur hv ?_ ?_ ?_ ?_ <;> rw [Function.update_self]
      · exact hsCoord2index_inside hv
      · exact hg
      · rw [calcHvalue_eq]
    · exact hext.inited ▸ h.inited
    · simp only [List.length_append, List.length_singleton]
      exact hcursor.trans (by omega)
    · exact le_of_eq_of_le hcursor (by omega)

end HsCommon.Astar
