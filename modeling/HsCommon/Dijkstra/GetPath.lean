import HsCommon.Define

/-!
# dijkstra_get_path

The shortest-path search of `hs_Dijkstra.cpp` for any value of `MAX_NODE_NUM`.
Nodes are numbered from 1 and 0 stands for no node. `used_nodes_id` is a list of
all nodes whose first entries are the nodes settled so far, and the cache of a
node is the path found to it, which is empty as long as there is none. The local
`list_len` is a `uint16_t`, so it holds the size of the `nodes` array modulo
65536. A sum that leaves the `int32_t` range is the overflow fault.
-/

namespace HsCommon.Dijkstra

structure DijkstraNode where
  id : ℕ
  weight : ℕ → ℤ

structure DijkstraNodeList where
  nodes : ℕ → DijkstraNode
  len : ℕ

structure PathNodeCache where
  shortestPathNodes : ℕ → ℕ
  pathNodeNum : ℕ
  weightsLen : ℤ

def PathNodeCache.zero : PathNodeCache := ⟨fun _ => 0, 0, 0⟩

/-- The scan from position `i` for `nodeId`, over at most `n` entries; a 0 ends it. -/
def findNode (useNodesId : ℕ → ℕ) (nodeId : ℕ) : ℕ → ℕ → Option ℕ
  | 0, _ => none
  | n + 1, i =>
    if useNodesId i = 0 then none
    else if useNodesId i = nodeId then some i
    else findNode useNodesId nodeId n (i + 1)

def setUsedNodeToPos (useNodesId : ℕ → ℕ) (nodeNum nodeId nodeSerial : ℕ) : ℕ → ℕ :=
  if useNodesId nodeSerial = nodeId then useNodesId
  else
    match findNode useNodesId nodeId (nodeNum - nodeSerial) nodeSerial with
    | none => useNodesId
    | some i =>
      Function.update (Function.update useNodesId nodeSerial nodeId) i (useNodesId nodeSerial)

def relax (maxNodeNum : ℕ) (nodeList : DijkstraNodeList) (useNode : ℕ)
    (allPathCache : ℕ → PathNodeCache) (nextNode : ℕ) : Except Fault (ℕ → PathNodeCache) :=
  let weight := (nodeList.nodes (useNode - 1)).weight (nextNode - 1)
  if weight ≤ 0 then .ok allPathCache
  else do
    let curWeight := (allPathCache (nextNode - 1)).weightsLen
    let w ← int32 ((allPathCache (useNode - 1)).weightsLen + weight)
    if (allPathCache (nextNode - 1)).pathNodeNum = 0 ∨ curWeight > w then
      let c := allPathCache (useNode - 1)
      let num := c.pathNodeNum
      if num < maxNodeNum then
        return Function.update allPathCache (nextNode - 1)
          { shortestPathNodes := Function.update c.shortestPathNodes num nextNode
            pathNodeNum := u16Add num 1
            weightsLen := c.weightsLen + weight }
      else
        throw .overrun
    else
      return allPathCache

/-- One round of the second inner loop, over the least length so far (-1 for none) and its node. -/
def minStep (allPathCache : ℕ → PathNodeCache) : ℤ × ℕ → ℕ → ℤ × ℕ
  | (minLen, minLenNode), n =>
    let len := (allPathCache (n - 1)).weightsLen
    if len > 0 then
      if minLen < 0 ∨ minLen > len then (len, n) else (minLen, minLenNode)
    else (minLen, minLenNode)

structure LoopState where
  i : ℕ
  usedNodesId : ℕ → ℕ
  allPathCache : ℕ → PathNodeCache
  useNode : ℕ

def restNodes (usedNodesId : ℕ → ℕ) (listLen i : ℕ) : List ℕ :=
  (List.range' (i + 1) (listLen - (i + 1))).map usedNodesId

def relaxAll (maxNodeNum : ℕ) (nodeList : DijkstraNodeList) (useNode : ℕ) :
    List ℕ → (ℕ → PathNodeCache) → Except Fault (ℕ → PathNodeCache)
  | [], allPathCache => .ok allPathCache
  | nextNode :: ns, allPathCache => do
    let allPathCache ← relax maxNodeNum nodeList useNode allPathCache nextNode
    relaxAll maxNodeNum nodeList useNode ns allPathCache

def round (maxNodeNum : ℕ) (nodeList : DijkstraNodeList) (listLen : ℕ) (s : LoopState) :
    Except Fault LoopState := do
  let usedNodesId := setUsedNodeToPos s.usedNodesId listLen s.useNode s.i
  let rest := restNodes usedNodesId listLen s.i
  let allPathCache ← relaxAll maxNodeNum nodeList s.useNode rest s.allPathCache
  return ⟨s.i + 1, usedNodesId, allPathCache, (rest.foldl (minStep allPathCache) (-1, 0)).2⟩

def mainLoop (maxNodeNum : ℕ) (nodeList : DijkstraNodeList) (listLen : ℕ) :
    ℕ → LoopState → Except Fault LoopState
  | 0, s => .ok s
  | n + 1, s =>
    if s.useNode = 0 then .ok s
    else do
      let s ← round maxNodeNum nodeList listLen s
      mainLoop maxNodeNum nodeList listLen n s

def startState (listLen beginNode : ℕ) : LoopState :=
  ⟨0, fun i => if i < listLen then i + 1 else 0, fun _ => .zero, beginNode⟩

/-- A NULL `node_list` is `none`; the result pointer is not NULL. -/
def dijkstraGetPath (maxNodeNum : ℕ) (nodeList : Option DijkstraNodeList)
    (beginNode endNode : ℕ) (resultList : PathNodeCache) : Except Fault (ℤ × PathNodeCache) :=
  match nodeList with
  | none => .ok (-1, resultList)
  | some nodeList =>
    if beginNode = 0 ∨ beginNode > nodeList.len ∨ endNode = 0 ∨ endNode > nodeList.len then
      .ok (-1, resultList)
    else do
      let listLen := maxNodeNum % 65536
      let listLen := if nodeList.len < listLen then nodeList.len else listLen
      let s ← mainLoop maxNodeNum nodeList listLen listLen (startState listLen beginNode)
      if (s.allPathCache (endNode - 1)).weightsLen = 0 then
        return (-1, resultList)
      else
        return (0, s.allPathCache (endNode - 1))

def NodeEdge (nodeList : DijkstraNodeList) (u v k : ℕ) : Prop :=
  (1 ≤ u ∧ u ≤ nodeList.len) ∧ (1 ≤ v ∧ v ≤ nodeList.len) ∧ 0 < k ∧
    (nodeList.nodes (u - 1)).weight (v - 1) = k

end HsCommon.Dijkstra
