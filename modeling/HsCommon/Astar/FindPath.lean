import HsCommon.Astar.Allocator
import HsCommon.Library.Cells

/-!
# hs_astar_find_path

One array holds both lists: the open list grows from index 0 upwards, the closed
list from the last index downwards, so the node closed last stands right after
`closed_curr_index`. The closed test starts its scan at `closed_curr_index`
itself and therefore never looks at the node that was closed first.

The budget `fuel` bounds the rounds of the `while (1)` loop and the links that
`get_result_list` follows. `removed` in the outcome is `closed_num` when the call
returns, the number of nodes taken off the open list.
-/

namespace HsCommon.Astar

def ttLen : ℕ := maxArrayWidth * maxArrayHeight

structure SearchLocals where
  openCloseNodes : ℕ → Option NodePtr
  openNum : ℕ
  closedNum : ℕ
  closedCurrIndex : ℕ
  cx : ℕ
  cy : ℕ

structure Outcome where
  code : ℤ
  res : AstarRes
  state : AstarState
  removed : ℕ

def setNode (s : AstarState) (p : NodePtr) (n : AstarNode) : AstarState :=
  { s with nodes := Function.update s.nodes p n }

def calcGvalue (nodes : NodePtr → AstarNode) : Option NodePtr → ℤ
  | none => 0
  | some p => (nodes p).g + 1

/-- One round of the scan for the smallest `f`; an `f` of 0 means that none was seen yet. -/
def minFStep (nodes : NodePtr → AstarNode) (openList : ℕ → Option NodePtr) :
    ℤ × ℕ → ℕ → ℤ × ℕ
  | (f, minFI), i =>
    match openList i with
    | some p => if f = 0 ∨ f ≥ (nodes p).f then ((nodes p).f, i) else (f, minFI)
    | none => (f, minFI)

def getMinFIndex (nodes : NodePtr → AstarNode) (openList : ℕ → Option NodePtr) (openListLen : ℕ) :
    ℕ :=
  ((List.range openListLen).foldl (minFStep nodes openList) (0, 0)).2

def holdsIndex (nodes : NodePtr → AstarNode) (index : ℤ) : Option NodePtr → Bool
  | some p => (nodes p).index == index
  | none => false

/-- 0 when the cell is found in the list, -1 otherwise. -/
def isInClosed (nodes : NodePtr → AstarNode) (closedList : ℕ → Option NodePtr)
    (closedListLen width height x y : ℕ) : ℤ :=
  let index := hsCoord2index x y width height
  if (List.range closedListLen).any fun i => holdsIndex nodes index (closedList i) then 0 else -1

/-- The position found, `none` for the return value -1. -/
def isInOpenByindex (nodes : NodePtr → AstarNode) (openList : ℕ → Option NodePtr)
    (openListLen : ℕ) (index : ℤ) : Option ℕ :=
  (List.range openListLen).find? fun i => holdsIndex nodes index (openList i)

def isInOpen (nodes : NodePtr → AstarNode) (openList : ℕ → Option NodePtr)
    (openListLen width height x y : ℕ) : Option ℕ :=
  let index := hsCoord2index x y width height
  if index < 0 then none else isInOpenByindex nodes openList openListLen index

def getResultList (nodes : NodePtr → AstarNode) :
    ℕ → Option NodePtr → ℕ → (ℕ → ℤ) → Except Fault AstarRes
  | _, none, i, indexList => .ok ⟨indexList, i⟩
  | 0, some _, _, _ => .error .outOfFuel
  | fuel + 1, some p, i, indexList =>
    if i < tIndexListSize then
      getResultList nodes fuel (nodes p).parent (i + 1)
        (Function.update indexList i (nodes p).index)
    else .error .overrun

def moveToClosed (l : SearchLocals) (fIndex : ℕ) : SearchLocals :=
  let a := Function.update l.openCloseNodes l.closedCurrIndex (l.openCloseNodes fIndex)
  let a := if fIndex + 1 < l.openNum then
      Cells.move a fIndex (fIndex + 1) (l.openNum - fIndex - 1)
    else a
  { l with
    openCloseNodes := Function.update a (l.openNum - 1) none
    openNum := u16Sub l.openNum 1
    closedNum := u16Add l.closedNum 1
    closedCurrIndex := u16Sub l.closedCurrIndex 1 }

def pushOpen (aa : AstarArray) (ex ey : ℕ) (cur : NodePtr) (nx ny : ℕ)
    (l : SearchLocals) (s : AstarState) : Except Fault (SearchLocals × AstarState) :=
  match astarNodeAlloc s with
  | (none, _) => .error .nullPointer
  | (some p, s) =>
    let g := calcGvalue s.nodes (some cur)
    let h := calcHvalue nx ny ex ey
    .ok ({ l with
        openCloseNodes := Function.update l.openCloseNodes l.openNum (some p)
        openNum := u16Add l.openNum 1 },
      setNode s p ⟨hsCoord2index nx ny aa.width aa.height, 1, g + h, g, h, some cur⟩)

def improveOpen (ex ey : ℕ) (cur q : NodePtr) (nx ny : ℕ) (s : AstarState) : AstarState :=
  let oldG := (s.nodes q).g
  let newG := (s.nodes cur).g + 1
  if oldG > newG then
    let g := calcGvalue s.nodes (some cur)
    let h := calcHvalue nx ny ex ey
    setNode s q { s.nodes q with parent := some cur, g := g, h := h, f := g + h }
  else s

def visitNeighbour (aa : AstarArray) (ex ey : ℕ) (cur : NodePtr) :
    SearchLocals × AstarState → ℤ × ℤ → Except Fault (SearchLocals × AstarState)
  | (l, s), (nx, ny) =>
    if isBlocked aa nx ny = 0 then .ok (l, s)
    else if isInClosed s.nodes (fun i => l.openCloseNodes (l.closedCurrIndex + i)) l.closedNum
        aa.width aa.height nx.toNat ny.toNat = 0 then .ok (l, s)
    else
      match isInOpen s.nodes l.openCloseNodes l.openNum aa.width aa.height nx.toNat ny.toNat with
      | none => pushOpen aa ex ey cur nx.toNat ny.toNat l s
      | some pos =>
        match l.openCloseNodes pos with
        | none => .ok (l, s)
        | some q => .ok (l, improveOpen ex ey cur q nx.toNat ny.toNat s)

def neighbours (cx cy : ℕ) : List (ℤ × ℤ) :=
  [((cx : ℤ), (cy : ℤ) - 1), ((cx : ℤ), (cy : ℤ) + 1),
    ((cx : ℤ) - 1, (cy : ℤ)), ((cx : ℤ) + 1, (cy : ℤ))]

def visitNeighbours (aa : AstarArray) (ex ey : ℕ) (cur : NodePtr) :
    List (ℤ × ℤ) → SearchLocals × AstarState → Except Fault (SearchLocals × AstarState)
  | [], ls => .ok ls
  | n :: ns, ls => do
    let ls ← visitNeighbour aa ex ey cur ls n
    visitNeighbours aa ex ey cur ns ls

def findLoop (aa : AstarArray) (endIndex : ℤ) (ex ey : ℕ) (res : AstarRes) (links : ℕ) :
    ℕ → SearchLocals × AstarState → Except Fault Outcome
  | 0, _ => .error .outOfFuel
  | fuel + 1, (l, s) =>
    if l.openNum = 0 then .ok ⟨-1, res, s, l.closedNum⟩
    else
      let fIndex := getMinFIndex s.nodes l.openCloseNodes l.openNum
      match l.openCloseNodes fIndex with
      | none => findLoop aa endIndex ex ey res links fuel (l, s)
      | some cur => do
        let l := moveToClosed l fIndex
        let gridIndex := (s.nodes cur).index
        if gridIndex = endIndex then
          let out ← getResultList s.nodes links (l.openCloseNodes (l.closedCurrIndex + 1)) 0
            res.indexList
          return ⟨0, out, s, l.closedNum⟩
        else
          -- the return code of hs_index2coord is not looked at
          let found ← hsIndex2coord gridIndex aa.width aa.height
          let c := found.getD (l.cx, l.cy)
          let l := { l with cx := c.1, cy := c.2 }
          let ls ← visitNeighbours aa ex ey cur (neighbours c.1 c.2) (l, s)
          findLoop aa endIndex ex ey res links fuel ls

def startLocals (p : NodePtr) (cx cy : ℕ) : SearchLocals :=
  { openCloseNodes := Function.update (fun _ => none) 0 (some p)
    openNum := 1
    closedNum := 0
    closedCurrIndex := ttLen - 1
    cx := cx
    cy := cy }

def hsAstarFindPath (fuel : ℕ) (aa : AstarArray) (beginIndex endIndex : ℤ) (res : AstarRes)
    (s : AstarState) : Except Fault Outcome := do
  if beginIndex < 0 ∨ endIndex < 0 then
    return ⟨-1, res, s, 0⟩
  match ← hsIndex2coord beginIndex aa.width aa.height with
  | none => return ⟨-1, res, s, 0⟩
  | some (cx, cy) =>
    match ← hsIndex2coord endIndex aa.width aa.height with
    | none => return ⟨-1, res, s, 0⟩
    | some (ex, ey) =>
      match astarNodeAlloc s with
      | (none, _) => throw .nullPointer
      | (some p, s) =>
        let h := calcHvalue cx cy ex ey
        let s := setNode s p ⟨beginIndex, 1, 0 + h, 0, h, none⟩
        findLoop aa endIndex ex ey res fuel fuel (startLocals p cx cy, s)

/-- A NULL `data` is `none`; `ta` and the result pointer are not NULL. -/
def hsAstarLoadData (data : Option (ℕ → ℤ)) (width height : ℕ) (ta : AstarArray)
    (s : AstarState) : ℤ × AstarArray × AstarState :=
  match data with
  | none => (-1, ta, s)
  | some data =>
    if width = 0 ∨ height = 0 then (-1, ta, s)
    else if width > maxArrayWidth ∨ height > maxArrayHeight then (-1, ta, s)
    else (0, ⟨loadCells data width height ta.arr, width, height⟩, astarNodeAllocatorRecycle s)

def hsAstarClear (s : AstarState) : AstarState := astarNodeFree s

def hsAstarRecycle (s : AstarState) : AstarState := astarNodeAllocatorRecycle s

inductive Reached : AstarState → Prop where
  | start (nodes : NodePtr → AstarNode) : Reached (.start nodes)
  | load {s : AstarState} (data : Option (ℕ → ℤ)) (width height : ℕ) (ta : AstarArray) :
      Reached s → Reached (hsAstarLoadData data width height ta s).2.2
  | find {s : AstarState} {aa : AstarArray} {beginIndex endIndex : ℤ} {res : AstarRes}
      {fuel : ℕ} {out : Outcome} : aa.Loaded → Reached s →
      hsAstarFindPath fuel aa beginIndex endIndex res s = .ok out → Reached out.state
  | clear {s : AstarState} : Reached s → Reached (hsAstarClear s)
  | recycle {s : AstarState} : Reached s → Reached (hsAstarRecycle s)

theorem hsAstarLoadData_loaded {data : Option (ℕ → ℤ)} {width height : ℕ} {ta : AstarArray}
    {s : AstarState} (h : (hsAstarLoadData data width height ta s).1 = 0) :
    (hsAstarLoadData data width height ta s).2.1.Loaded ∧
      (hsAstarLoadData data width height ta s).2.2 = astarNodeAllocatorRecycle s := by
  cases data with
  | none => simp [hsAstarLoadData] at h
  | some data =>
    by_cases h1 : width = 0 ∨ height = 0
    · simp [hsAstarLoadData, h1] at h
    · by_cases h2 : width > maxArrayWidth ∨ height > maxArrayHeight
      · simp [hsAstarLoadData, h1, h2] at h
      · simp only [hsAstarLoadData, if_neg h1, if_neg h2, and_true]
        simp only [maxArrayWidth, maxArrayHeight] at h2
        exact ⟨by dsimp only; omega, by dsimp only; omega, by dsimp only; omega,
          by dsimp only; omega⟩

theorem hsAstarLoadData_arr {data : ℕ → ℤ} {width height : ℕ} {ta : AstarArray}
    {s : AstarState} (h : (hsAstarLoadData (some data) width height ta s).1 = 0) {c : Cell}
    (hc : (hsAstarLoadData (some data) width height ta s).2.1.Inside c) :
    (hsAstarLoadData (some data) width height ta s).2.1.arr (c.2 * width + c.1) =
      data (width * c.2 + c.1) := by
  by_cases h1 : width = 0 ∨ height = 0
  · simp [hsAstarLoadData, h1] at h
  · by_cases h2 : width > maxArrayWidth ∨ height > maxArrayHeight
    · simp [hsAstarLoadData, h1, h2] at h
    · simp only [hsAstarLoadData, if_neg h1, if_neg h2] at hc ⊢
      exact loadCells_apply data ta.arr hc.1 hc.2

end HsCommon.Astar
