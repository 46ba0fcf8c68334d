import HsCommon.Astar.Search
import HsCommon.Astar.SearchSteps

/-!
# The array of the two lists

The open list fills `open_close_nodes` from the front, the closed list from the
back. Each removal moves one node from the first to the second, and each new node
takes a slot of the allocator, of which there are fewer than places in the array:
the lists never meet. Nothing here depends on the grid.
-/

namespace HsCommon.Astar
open Transition

variable {aa : AstarArray} {base ex ey : ℕ} {endIndex : ℤ} {l l' : SearchLocals}
  {s s' : AstarState}

/-- Nodes in front and at the back, and at least one NULL between them. -/
structure Split (l : SearchLocals) : Prop where
  length : l.closedCurrIndex + 1 + l.closedNum = ttLen
  apart : l.openNum ≤ l.closedCurrIndex
  front : ∀ i, i < l.openNum → (l.openCloseNodes i).isSome
  gap : ∀ i, l.openNum ≤ i → i ≤ l.closedCurrIndex → l.openCloseNodes i = none
  back : ∀ i, l.closedCurrIndex < i → i < ttLen → (l.openCloseNodes i).isSome

structure Stocked (base : ℕ) (l : SearchLocals) (s : AstarState) : Prop where
  split : Split l
  ok : s.Ok
  inited : s.allocData.inited ≠ 0
  cursor : s.cursor = base + (l.openNum + l.closedNum)
  room : s.cursor ≤ 4095

theorem minFStep_lt {nodes : NodePtr → AstarNode} {openList : ℕ → Option NodePtr} {n : ℕ}
    {best : ℤ × ℕ} (hbest : best.2 < n) {i : ℕ} (hi : i < n) :
    (minFStep nodes openList best i).2 < n := by
  obtain ⟨f, minFI⟩ := best
  unfold minFStep
  dsimp only
  split
  · split_ifs
    · exact hi
    · exact hbest
  · exact hbest

theorem getMinFIndex_lt (nodes : NodePtr → AstarNode) (openList : ℕ → Option NodePtr) {n : ℕ}
    (hn : 0 < n) : getMinFIndex nodes openList n < n := by
  have key : ∀ (is : List ℕ) (best : ℤ × ℕ), best.2 < n → (∀ i ∈ is, i < n) →
      (is.foldl (minFStep nodes openList) best).2 < n := by
    intro is
    induction is with
    | nil => exact fun _ hbest _ => hbest
    | cons i is ih =>
      intro best hbest his
      apply ih
      · exact minFStep_lt hbest (his i List.mem_cons_self)
      · exact fun j hj => his j (List.mem_cons_of_mem _ hj)
  exact key _ _ hn fun i hi => List.mem_range.mp hi

theorem isInOpen_node {nodes : NodePtr → AstarNode} {openList : ℕ → Option NodePtr}
    {n width height x y pos : ℕ} (h : isInOpen nodes openList n width height x y = some pos) :
    (openList pos).isSome := by
  unfold isInOpen at h
  dsimp only at h
  split_ifs at h
  have hfound := List.find?_some h
  cases hpos : openList pos with
  | none =>
    rw [hpos] at hfound
    cases hfound
  | some p => rfl

theorem Stocked.moveToClosed (h : Stocked base l s) {k : ℕ} (hk : k < l.openNum) :
    Stocked base (moveToClosed l k) s := by
  obtain ⟨hlen, hapart, hfront, hgap, hback⟩ := h.split
  have htt : ttLen = 16384 := rfl
  have hopen : (Astar.moveToClosed l k).openNum = l.openNum - 1 := u16Sub_eq (by omega) (by omega)
  have hnum : (Astar.moveToClosed l k).closedNum = l.closedNum + 1 := u16Add_eq (by omega)
  have hcurr : (Astar.moveToClosed l k).closedCurrIndex = l.closedCurrIndex - 1 :=
    u16Sub_eq (by omega) (by omega)
  have hnodes := moveToClosed_nodes l hk hapart
  refine ⟨⟨?_, ?_, ?_, ?_, ?_⟩, h.ok, h.inited, ?_, h.room⟩
  · rw [hcurr, hnum]
    omega
  · rw [hopen, hcurr]
    omega
  · intro i hi
    rw [hopen] at hi
    rw [hnodes, if_neg (by omega), if_neg (by omega)]
    split_ifs
    · exact hfront _ (by omega)
    · exact hfront i (by omega)
  · intro i hlo hhi
    rw [hopen] at hlo
    rw [hcurr] at hhi
    rw [hnodes]
    split_ifs with hlast hold hmoved
    · rfl
    · omega
    · omega
    · exact hgap i (by omega) (by omega)
  · intro i hlo hhi
    rw [hcurr] at hlo
    rw [hnodes, if_neg (by omega)]
    by_cases hi : i = l.closedCurrIndex
    · rw [if_pos hi]
      exact hfront k hk
    · rw [if_neg hi, if_neg (by omega)]
      exact hback i (by omega) hhi
  · rw [hopen, hnum, h.cursor]
    omega

theorem Stocked.pushOpen (h : Stocked base l s) {cur : NodePtr} {nx ny : ℕ}
    (hpush : pushOpen aa ex ey cur nx ny l s = .ok (l', s')) : Stocked base l' s' := by
  obtain ⟨hlen, hapart, hfront, hgap, hback⟩ := h.split
  have htt : ttLen = 16384 := rfl
  have hcursor := h.cursor
  unfold Astar.pushOpen at hpush
  rcases astarNodeAlloc_spec h.ok h.inited with ⟨-, he⟩ | ⟨hfree, p, hp, hok, hext, hcur, -⟩
  · rw [he] at hpush
    cases hpush
  · rw [show astarNodeAlloc s = (some p, (astarNodeAlloc s).2) from Prod.ext hp rfl] at hpush
    obtain ⟨rfl, rfl⟩ := Prod.mk.inj (Except.ok.inj hpush)
    have hopen : u16Add l.openNum 1 = l.openNum + 1 := u16Add_eq (by omega)
    refine ⟨⟨hlen, ?_, ?_, ?_, ?_⟩, setNode_ok hok, ?_, ?_, ?_⟩
    · show u16Add l.openNum 1 ≤ l.closedCurrIndex
      omega
    · intro i hi
      dsimp only at hi ⊢
      rw [Function.update_apply]
      split_ifs with hnew
      · rfl
      · exact hfront i (by omega)
    · intro i hlo hhi
      dsimp only at hlo hhi ⊢
      rw [Function.update_of_ne (by omega)]
      exact hgap i (by omega) hhi
    · intro i hlo hhi
      dsimp only at hlo ⊢
      rw [Function.update_of_ne (by omega)]
      exact hback i hlo hhi
    · show (astarNodeAlloc s).2.allocData.inited ≠ 0
      rw [hext.inited]
      exact h.inited
    · show (astarNodeAlloc s).2.cursor = base + (u16Add l.openNum 1 + l.closedNum)
      omega
    · show (astarNodeAlloc s).2.cursor ≤ 4095
      omega

theorem Stocked.setNode (h : Stocked base l s) (p : NodePtr) (n : AstarNode) :
    Stocked base l (setNode s p n) :=
  ⟨h.split, setNode_ok h.ok, h.inited, h.cursor, h.room⟩

theorem Stocked.visitNeighbour (h : Stocked base l s) {cur : NodePtr} {n : ℤ × ℤ}
    (hv : visitNeighbour aa ex ey cur (l, s) n = .ok (l', s')) : Stocked base l' s' := by
  obtain ⟨nx, ny⟩ := n
  rw [Astar.visitNeighbour] at hv
  split_ifs at hv
  · cases hv
    exact h
  · cases hv
    exact h
  · split at hv
    · exact h.pushOpen hv
    · split at hv
      · cases hv
        exact h
      · cases hv
        unfold improveOpen
        dsimp only
        split_ifs
        · exact h.setNode _ _
        · exact h

theorem Stocked.step {pt pt' : SearchPoint} {e : SearchEvent}
    (h : Stocked base pt.locals pt.state) (hs : SearchStep aa endIndex ex ey pt e pt') :
    Stocked base pt'.locals pt'.state := by
  cases htodo : pt.todo with
  | cons n todo =>
    obtain ⟨cur, n⟩ := n
    exact h.visitNeighbour (hs.of_visit htodo).1
  | nil =>
    obtain ⟨hzero, hstate, ⟨cx, cy, hlocals⟩, -⟩ := hs.of_remove htodo
    have hmoved := h.moveToClosed (getMinFIndex_lt pt.state.nodes pt.locals.openCloseNodes
      (Nat.pos_of_ne_zero hzero))
    obtain ⟨⟨hlen, hapart, hfront, hgap, hback⟩, hok, hinited, hcursor, hroom⟩ := hmoved
    rw [hstate, hlocals]
    exact ⟨⟨hlen, hapart, hfront, hgap, hback⟩, hok, hinited, hcursor, hroom⟩

theorem stocked_start {p : NodePtr} {cx cy : ℕ} {beginIndex : ℤ} (hs : s.Ok)
    (halloc : astarNodeAlloc s = (some p, s')) :
    Stocked s.cursor (startLocals p cx cy)
      (startPoint p cx cy ex ey beginIndex s').state := by
  have hi := inited_of_alloc hs halloc
  have htt : ttLen = 16384 := rfl
  have hspec := astarNodeAlloc_spec hs hi
  rw [halloc] at hspec
  rcases hspec with ⟨-, he⟩ | ⟨hfree, q, -, hok, hext, hcur, -⟩
  · cases he
  · dsimp only at hok hext hcur
    refine ⟨⟨rfl, ?_, ?_, ?_, ?_⟩, setNode_ok hok, ?_, hcur, ?_⟩
    · simp only [startLocals]
      omega
    · intro i hlt
      obtain rfl : i = 0 := Nat.lt_one_iff.mp hlt
      rfl
    · intro i hlo _
      have hne : i ≠ 0 := by
        simp only [startLocals] at hlo
        omega
      show Function.update (fun _ => none) 0 (some p) i = none
      rw [Function.update_of_ne hne]
    · intro i hlo hhi
      simp only [startLocals] at hlo
      omega
    · show s'.allocData.inited ≠ 0
      rw [hext.inited]
      exact hi
    · show s'.cursor ≤ 4095
      omega

/-- The places of the array that the next step reads or writes, whichever branch it takes. -/
def SearchPoint.indicesUsed (pt : SearchPoint) : List ℕ :=
  let l := pt.locals
  match pt.todo with
  | _ :: _ => List.range' l.closedCurrIndex l.closedNum ++ List.range (l.openNum + 1)
  | [] =>
    if l.openNum = 0 then []
    else
      let fIndex := getMinFIndex pt.state.nodes l.openCloseNodes l.openNum
      List.range l.openNum ++ [fIndex, l.closedCurrIndex] ++
        List.range' fIndex (l.openNum - fIndex) ++ [l.openNum - 1]

theorem Split.indicesUsed_lt {pt : SearchPoint} (h : Split pt.locals) :
    ∀ i ∈ pt.indicesUsed, i < ttLen := by
  have hlen := h.length
  have hapart := h.apart
  intro i hi
  unfold SearchPoint.indicesUsed at hi
  dsimp only at hi
  split at hi
  · rw [List.mem_append, List.mem_range'_1, List.mem_range] at hi
    omega
  · split_ifs at hi with hzero
    · cases hi
    · have hk := getMinFIndex_lt pt.state.nodes pt.locals.openCloseNodes
        (Nat.pos_of_ne_zero hzero)
      simp only [List.mem_append, List.mem_range, List.mem_cons, List.mem_range'_1,
        List.not_mem_nil, or_false] at hi
      omega

/-- The array is split at every point of a search, every place used lies in it, and neither test
for a NULL node succeeds. -/
theorem search_array_split {beginIndex : ℤ} {es : List SearchEvent} {pt : SearchPoint}
    (hs : Reached s) (h : SearchRun aa beginIndex endIndex s es pt) :
    Split pt.locals ∧ (∀ i ∈ pt.indicesUsed, i < ttLen) ∧
      (pt.locals.openNum ≠ 0 → pt.locals.openCloseNodes
        (getMinFIndex pt.state.nodes pt.locals.openCloseNodes pt.locals.openNum) ≠ none) ∧
      ∀ x y pos, isInOpen pt.state.nodes pt.locals.openCloseNodes pt.locals.openNum aa.width
        aa.height x y = some pos → pt.locals.openCloseNodes pos ≠ none := by
  obtain @⟨cx, cy, ex, ey, p, s', -, -, -, -, halloc, hrun⟩ := h
  have hstocked : Stocked s.cursor pt.locals pt.state :=
    hrun.invariant (P := fun pt => Stocked s.cursor pt.locals pt.state)
      (stocked_start hs.ok halloc) fun _ _ _ hpt hstep => hpt.step hstep
  have hsplit := hstocked.split
  refine ⟨hsplit, hsplit.indicesUsed_lt, ?_, ?_⟩
  · intro hzero
    apply Option.isSome_iff_ne_none.mp
    exact hsplit.front _ (getMinFIndex_lt _ _ (Nat.pos_of_ne_zero hzero))
  · intro x y pos hpos
    exact Option.isSome_iff_ne_none.mp (isInOpen_node hpos)

theorem search_array_secondHead :
    let load := hsAstarLoadData (some fun _ => 0) 2 2 .blank (.start fun _ => .zero)
    ∃ es pt, SearchRun load.2.1 0 3 load.2.2 es pt ∧ removals es = [0] ∧
      pt.indicesUsed = [0, 1, 1, 16382, 1, 1] ∧ Split pt.locals ∧
      ∀ i ∈ pt.indicesUsed, i < ttLen := by
  intro load
  have hbegin : hsIndex2coord 0 load.2.1.width load.2.1.height = .ok (some (0, 0)) := by decide
  have hend : hsIndex2coord 3 load.2.1.width load.2.1.height = .ok (some (1, 1)) := by decide
  obtain ⟨p, hp⟩ : ∃ p, (astarNodeAlloc load.2.2).1 = some p := ⟨_, rfl⟩
  obtain ⟨pt, hsteps, hpt⟩ := @Run.of_observed _ _ (SearchStep load.2.1 3 1 1)
    (startPoint p 0 0 1 1 0 (astarNodeAlloc load.2.2).2) _ _ (fun _ _ _ => searchStep_of_stepTo)
    [.remove 0, .visit (0, -1), .visit (0, 1), .visit (-1, 0), .visit (1, 0)]
    SearchPoint.indicesUsed [0, 1, 1, 16382, 1, 1] (by cases hp; decide +kernel)
  have hrun : SearchRun load.2.1 0 3 load.2.2 _ pt :=
    .intro (by decide) (by decide) hbegin hend (Prod.ext hp rfl) hsteps
  obtain ⟨hsplit, hused, -⟩ := search_array_split (.load _ 2 2 _ (.start _)) hrun
  exact ⟨_, pt, hrun, rfl, hpt, hsplit, hused⟩

end HsCommon.Astar
