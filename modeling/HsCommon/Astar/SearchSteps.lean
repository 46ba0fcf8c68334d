import HsCommon.Astar.FindPath
import HsCommon.Library.Runs
import HsCommon.Library.Outcome

/-!
# The search step by step

The loop of `hs_astar_find_path` in the steps between which its two lists change: a node is removed
from the open list, or one of the neighbours of the node removed last is visited.
-/

open Outcome

namespace HsCommon.Astar
open Transition

inductive SearchEvent
  | remove (index : ℤ)
  | visit (n : ℤ × ℤ)
  deriving DecidableEq

/-- The neighbours still to be visited are in `todo`, with the node they are the neighbours of. -/
structure SearchPoint where
  todo : List (NodePtr × ℤ × ℤ)
  found : Bool
  locals : SearchLocals
  state : AstarState

def searchNext (aa : AstarArray) (endIndex : ℤ) (ex ey : ℕ) (pt : SearchPoint) :
    Except Fault (Option (SearchEvent × SearchPoint)) :=
  match pt.todo with
  | (cur, n) :: todo => do
    let ls ← visitNeighbour aa ex ey cur (pt.locals, pt.state) n
    return some (.visit n, ⟨todo, false, ls.1, ls.2⟩)
  | [] =>
    if pt.found ∨ pt.locals.openNum = 0 then .ok none
    else
      let fIndex := getMinFIndex pt.state.nodes pt.locals.openCloseNodes pt.locals.openNum
      match pt.locals.openCloseNodes fIndex with
      | none => .ok none
      | some cur => do
        let l := moveToClosed pt.locals fIndex
        let gridIndex := (pt.state.nodes cur).index
        if gridIndex = endIndex then
          return some (.remove gridIndex, ⟨[], true, l, pt.state⟩)
        else
          let found ← hsIndex2coord gridIndex aa.width aa.height
          let c := found.getD (l.cx, l.cy)
          let l := { l with cx := c.1, cy := c.2 }
          return some (.remove gridIndex,
            ⟨(neighbours c.1 c.2).map (Prod.mk cur), false, l, pt.state⟩)

def SearchStep (aa : AstarArray) (endIndex : ℤ) (ex ey : ℕ) (pt : SearchPoint) (e : SearchEvent)
    (pt' : SearchPoint) : Prop :=
  searchNext aa endIndex ex ey pt = .ok (some (e, pt'))

def stepTo (aa : AstarArray) (endIndex : ℤ) (ex ey : ℕ) (pt : SearchPoint) (e : SearchEvent) :
    Option SearchPoint :=
  match searchNext aa endIndex ex ey pt with
  | .ok (some (e', pt')) => if e' = e then some pt' else none
  | _ => none

theorem searchStep_of_stepTo {aa : AstarArray} {endIndex : ℤ} {ex ey : ℕ} {pt pt' : SearchPoint}
    {e : SearchEvent} (h : stepTo aa endIndex ex ey pt e = some pt') :
    SearchStep aa endIndex ex ey pt e pt' := by
  rw [stepTo] at h
  split at h
  · rename_i e' pt'' hnext
    split_ifs at h with he
    obtain rfl := Option.some.inj h
    rw [SearchStep, hnext, he]
  · cases h

theorem SearchStep.of_visit {aa : AstarArray} {endIndex : ℤ} {ex ey : ℕ} {pt pt' : SearchPoint}
    {e : SearchEvent} {cur : NodePtr} {n : ℤ × ℤ} {todo : List (NodePtr × ℤ × ℤ)}
    (h : SearchStep aa endIndex ex ey pt e pt') (htodo : pt.todo = (cur, n) :: todo) :
    visitNeighbour aa ex ey cur (pt.locals, pt.state) n = .ok (pt'.locals, pt'.state) ∧
      pt'.todo = todo := by
  obtain ⟨todo', found, l, s⟩ := pt
  obtain rfl := htodo
  obtain ⟨ls, hv, hpt⟩ := exists_of_bind h
  obtain ⟨-, rfl⟩ := Prod.mk.inj (Option.some.inj (Except.ok.inj hpt))
  exact ⟨hv, rfl⟩

theorem SearchStep.of_remove {aa : AstarArray} {endIndex : ℤ} {ex ey : ℕ} {pt pt' : SearchPoint}
    {e : SearchEvent} (h : SearchStep aa endIndex ex ey pt e pt') (htodo : pt.todo = []) :
    let fIndex := getMinFIndex pt.state.nodes pt.locals.openCloseNodes pt.locals.openNum
    pt.locals.openNum ≠ 0 ∧ pt'.state = pt.state ∧
      (∃ cx cy, pt'.locals = { moveToClosed pt.locals fIndex with cx := cx, cy := cy }) ∧
      ∃ cur, pt.locals.openCloseNodes fIndex = some cur ∧ ∀ x ∈ pt'.todo, x.1 = cur := by
  obtain ⟨todo, found, l, s⟩ := pt
  obtain rfl := htodo
  simp only [SearchStep, searchNext] at h
  split_ifs at h with hstop
  · cases h
  · refine ⟨(not_or.mp hstop).2, ?_⟩
    split at h
    · cases h
    · rename_i cur hcur
      split_ifs at h
      · obtain ⟨-, rfl⟩ := Prod.mk.inj (Option.some.inj (Except.ok.inj h))
        refine ⟨rfl, ⟨l.cx, l.cy, rfl⟩, cur, hcur, ?_⟩
        intro x hx
        cases hx
      · obtain ⟨found, -, hpt⟩ := exists_of_bind h
        obtain ⟨-, rfl⟩ := Prod.mk.inj (Option.some.inj (Except.ok.inj hpt))
        refine ⟨rfl, ⟨_, _, rfl⟩, cur, hcur, ?_⟩
        intro x hx
        obtain ⟨n, -, rfl⟩ := List.mem_map.mp hx
        rfl

def startPoint (p : NodePtr) (cx cy ex ey : ℕ) (beginIndex : ℤ) (s : AstarState) : SearchPoint :=
  ⟨[], false, startLocals p cx cy,
    setNode s p ⟨beginIndex, 1, 0 + calcHvalue cx cy ex ey, 0, calcHvalue cx cy ex ey, none⟩⟩

/-- The steps of a call so far. A call takes none when an index is outside the grid. -/
inductive SearchRun (aa : AstarArray) (beginIndex endIndex : ℤ) (s : AstarState)
    (es : List SearchEvent) (pt : SearchPoint) : Prop
  | intro {cx cy ex ey : ℕ} {p : NodePtr} {s' : AstarState} :
      0 ≤ beginIndex → 0 ≤ endIndex →
      hsIndex2coord beginIndex aa.width aa.height = .ok (some (cx, cy)) →
      hsIndex2coord endIndex aa.width aa.height = .ok (some (ex, ey)) →
      astarNodeAlloc s = (some p, s') →
      Run (SearchStep aa endIndex ex ey) (startPoint p cx cy ex ey beginIndex s') es pt →
      SearchRun aa beginIndex endIndex s es pt

def SearchEvent.removed : SearchEvent → Option ℤ
  | remove index => some index
  | visit _ => none

def removals (es : List SearchEvent) : List ℤ := es.filterMap SearchEvent.removed

def SearchPoint.nodes (pt : SearchPoint) : List NodePtr :=
  (Cells.read pt.locals.openCloseNodes 0 pt.locals.openNum ++
    Cells.read pt.locals.openCloseNodes (pt.locals.closedCurrIndex + 1)
      pt.locals.closedNum).filterMap id

def SearchPoint.indices (pt : SearchPoint) : List ℤ :=
  pt.nodes.map fun p => (pt.state.nodes p).index

variable {aa : AstarArray} {endIndex : ℤ} {ex ey : ℕ} {l l' : SearchLocals} {s s' : AstarState}

theorem visitNeighbours_run {cur : NodePtr} {ns : List (ℤ × ℤ)}
    (h : visitNeighbours aa ex ey cur ns (l, s) = .ok (l', s')) :
    ∃ es, Run (SearchStep aa endIndex ex ey) ⟨ns.map (Prod.mk cur), false, l, s⟩ es
      ⟨[], false, l', s'⟩ := by
  induction ns generalizing l s with
  | nil =>
    cases h
    exact ⟨[], .nil⟩
  | cons n ns ih =>
    rw [visitNeighbours] at h
    obtain ⟨ls, hv, h⟩ := exists_of_bind h
    obtain ⟨es, hrun⟩ := ih (l := ls.1) (s := ls.2) h
    refine ⟨.visit n :: es, hrun.cons ?_⟩
    simp only [SearchStep, searchNext, List.map_cons, hv]
    rfl

structure Ended (pt : SearchPoint) (out : Outcome) : Prop where
  todo : pt.todo = []
  last : pt.found = true ∨ pt.locals.openNum = 0
  code : out.code = if pt.found then 0 else -1
  state : out.state = pt.state
  removed : out.removed = pt.locals.closedNum

def Lists (pt : SearchPoint) (links : ℕ) (res : AstarRes) (out : Outcome) : Prop :=
  getResultList pt.state.nodes links
    (pt.locals.openCloseNodes (pt.locals.closedCurrIndex + 1)) 0 res.indexList = .ok out.res

theorem findLoop_run {res : AstarRes} {links fuel : ℕ} {out : Outcome}
    (h : findLoop aa endIndex ex ey res links fuel (l, s) = .ok out) :
    ∃ es pt, Run (SearchStep aa endIndex ex ey) ⟨[], false, l, s⟩ es pt ∧ Ended pt out ∧
      (pt.found = true → Lists pt links res out) := by
  induction fuel generalizing l s with
  | zero => cases h
  | succ fuel ih =>
    rw [findLoop] at h
    by_cases hzero : l.openNum = 0
    · rw [if_pos hzero] at h
      cases h
      exact ⟨[], _, .nil, ⟨rfl, Or.inr hzero, rfl, rfl, rfl⟩, nofun⟩
    · rw [if_neg hzero] at h
      cases hcur : l.openCloseNodes (getMinFIndex s.nodes l.openCloseNodes l.openNum) with
      | none =>
        simp only [hcur] at h
        exact ih h
      | some cur =>
        simp only [hcur] at h
        have hnot : ¬ (false = true ∨ l.openNum = 0) := by simp [hzero]
        by_cases hend : (s.nodes cur).index = endIndex
        · rw [if_pos hend] at h
          obtain ⟨list, hlist, hout⟩ := exists_of_bind h
          cases hout
          refine ⟨[.remove (s.nodes cur).index], ⟨[], true, _, s⟩, Run.nil.snoc ?_,
            ⟨rfl, Or.inl rfl, rfl, rfl, rfl⟩, fun _ => hlist⟩
          simp only [SearchStep, searchNext, if_neg hnot, hcur, if_pos hend]
          rfl
        · rw [if_neg hend] at h
          obtain ⟨found, hfound, h⟩ := exists_of_bind h
          obtain ⟨ls, hvisit, h⟩ := exists_of_bind h
          obtain ⟨es, pt, hrun, hended⟩ := ih (l := ls.1) (s := ls.2) h
          obtain ⟨vs, hvs⟩ := @visitNeighbours_run aa endIndex ex ey _ ls.1 s ls.2 cur _ hvisit
          refine ⟨.remove (s.nodes cur).index :: (vs ++ es), pt, (hvs.append hrun).cons ?_, hended⟩
          simp only [SearchStep, searchNext, if_neg hnot, hcur, if_neg hend, hfound]
          rfl

end HsCommon.Astar
