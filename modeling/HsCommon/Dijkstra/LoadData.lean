import HsCommon.Dijkstra.Settle
import HsCommon.Library.Runs

/-!
# dijkstra_list_load_data

The loader copies the nodes and adds one to `len` for each of them. It does not start from 0, so
`len` is the number of nodes of all loads together, and the search, which takes every number up to
`len` for a node, is safe only as long as one load has succeeded.
-/

namespace HsCommon.Dijkstra
open Transition

def DijkstraNodeList.zero : DijkstraNodeList := ⟨fun _ => ⟨0, fun _ => 0⟩, 0⟩

def copyNode (data : ℕ → DijkstraNode) (nodeList : DijkstraNodeList) (i : ℕ) : DijkstraNodeList :=
  ⟨Function.update nodeList.nodes i (data i), u16Add nodeList.len 1⟩

/-- A NULL array or list is `none`. -/
def dijkstraListLoadData (maxNodeNum : ℕ) (nodeArrayData : Option (ℕ → DijkstraNode)) (len : ℕ)
    (nodeList : Option DijkstraNodeList) : ℤ × Option DijkstraNodeList :=
  match nodeList, nodeArrayData with
  | none, _ => (-1, nodeList)
  | _, none => (-1, nodeList)
  | some l, some data =>
    if len = 0 then (-1, nodeList)
    else
      let ss := maxNodeNum % 65536
      let len := if len > ss then ss else len
      (0, some ((List.range len).foldl (copyNode data) l))

variable {maxNodeNum n : ℕ} {data : ℕ → DijkstraNode} {l : DijkstraNodeList}

theorem copied_nodes (data : ℕ → DijkstraNode) (n : ℕ) (l : DijkstraNodeList) (i : ℕ) :
    ((List.range n).foldl (copyNode data) l).nodes i = if i < n then data i else l.nodes i := by
  induction n with
  | zero => rfl
  | succ n ih =>
    rw [List.range_succ, List.foldl_append, List.foldl_cons, List.foldl_nil, copyNode]
    dsimp only
    by_cases hi : i = n
    · rw [hi, Function.update_self, if_pos (Nat.lt_succ_self n)]
    · rw [Function.update_of_ne hi, ih]
      simp only [Nat.lt_succ_iff_lt_or_eq, hi, or_false]

theorem copied_len (data : ℕ → DijkstraNode) (n : ℕ) (hl : l.len < 65536) :
    ((List.range n).foldl (copyNode data) l).len = (l.len + n) % 65536 := by
  induction n with
  | zero => exact (Nat.mod_eq_of_lt hl).symm
  | succ n ih =>
    rw [List.range_succ, List.foldl_append, List.foldl_cons, List.foldl_nil, copyNode]
    dsimp only
    rw [ih, u16Add]
    omega

structure LoadCall where
  data : Option (ℕ → DijkstraNode)
  len : ℕ

def LoadStep (maxNodeNum : ℕ) (l : DijkstraNodeList) (call : LoadCall)
    (l' : DijkstraNodeList) : Prop :=
  call.len < 65536 ∧
    (dijkstraListLoadData maxNodeNum call.data call.len (some l)).2 = some l'

def LoadCall.Succeeds (maxNodeNum : ℕ) (l : DijkstraNodeList) (call : LoadCall) : Prop :=
  (dijkstraListLoadData maxNodeNum call.data call.len (some l)).1 = 0

/-- The list holds the data of this load and nothing else. -/
def Latest (maxNodeNum : ℕ) (call : LoadCall) (l : DijkstraNodeList) : Prop :=
  l.len = min call.len maxNodeNum ∧ ∀ data, call.data = some data → ∀ i < l.len, l.nodes i = data i

def LoadDone (maxNodeNum : ℕ) (l : DijkstraNodeList) (call : LoadCall)
    (l' : DijkstraNodeList) : Prop :=
  (call.Succeeds maxNodeNum l → Latest maxNodeNum call l') ∧
    ∀ node, l'.Has node → node - 1 < maxNodeNum

theorem LoadCall.succeeds_iff {call : LoadCall} :
    call.Succeeds maxNodeNum l ↔ call.data ≠ none ∧ call.len ≠ 0 := by
  rw [LoadCall.Succeeds, dijkstraListLoadData.eq_def]
  cases call.data with
  | none => simp
  | some data =>
    by_cases hlen : call.len = 0
    · simp [hlen]
    · simp [hlen]

theorem LoadStep.of_fails {call : LoadCall} {l' : DijkstraNodeList}
    (h : LoadStep maxNodeNum l call l') (hfails : ¬ call.Succeeds maxNodeNum l) : l' = l := by
  obtain ⟨-, h⟩ := h
  rw [LoadCall.succeeds_iff, not_and_or, not_not, not_not] at hfails
  rw [dijkstraListLoadData.eq_def] at h
  cases hdata : call.data with
  | none =>
    rw [hdata] at h
    exact (Option.some.inj h).symm
  | some data =>
    rw [hdata] at h hfails
    dsimp only at h
    rw [if_pos (hfails.resolve_left (Option.some_ne_none _))] at h
    exact (Option.some.inj h).symm

theorem LoadStep.of_succeeds (hmax : maxNodeNum ≤ 65535) (hl : l.len < 65536) {call : LoadCall}
    {l' : DijkstraNodeList} (h : LoadStep maxNodeNum l call l')
    (hsucceeds : call.Succeeds maxNodeNum l) :
    l'.len = (l.len + min call.len maxNodeNum) % 65536 ∧
      ∀ data, call.data = some data → ∀ i < min call.len maxNodeNum, l'.nodes i = data i := by
  obtain ⟨-, h⟩ := h
  obtain ⟨hdata, hlen⟩ := LoadCall.succeeds_iff.mp hsucceeds
  obtain ⟨data, hdata⟩ := Option.ne_none_iff_exists'.mp hdata
  have hcap : (if call.len > maxNodeNum % 65536 then maxNodeNum % 65536 else call.len) =
      min call.len maxNodeNum := by
    rw [Nat.mod_eq_of_lt (by omega : maxNodeNum < 65536)]
    split_ifs <;> omega
  rw [dijkstraListLoadData.eq_def, hdata] at h
  dsimp only at h
  rw [if_neg hlen, hcap] at h
  obtain rfl := Option.some.inj h
  refine ⟨copied_len data _ hl, ?_⟩
  intro data' hsame i hi
  obtain rfl := Option.some.inj (hdata.symm.trans hsame)
  rw [copied_nodes, if_pos hi]

theorem LoadStep.done_iff (hmax : maxNodeNum ≤ 65535) (hl : l.len ≤ maxNodeNum)
    {call : LoadCall} {l' : DijkstraNodeList} (h : LoadStep maxNodeNum l call l') :
    (LoadDone maxNodeNum l call l' ↔ (call.Succeeds maxNodeNum l → l.len = 0)) ∧
      ((call.Succeeds maxNodeNum l → l.len = 0) → l'.len ≤ maxNodeNum) := by
  have hinside : ∀ l : DijkstraNodeList, l.len ≤ maxNodeNum →
      ∀ node, l.Has node → node - 1 < maxNodeNum := by
    rintro l hl node ⟨hpos, hle⟩
    omega
  by_cases hsucceeds : call.Succeeds maxNodeNum l
  · obtain ⟨hlen, hnodes⟩ := h.of_succeeds hmax (by omega) hsucceeds
    simp only [LoadDone, hsucceeds, true_implies]
    constructor
    · constructor
      · rintro ⟨⟨hlatest, -⟩, -⟩
        omega
      · intro hzero
        have hmin : l'.len = min call.len maxNodeNum := by omega
        refine ⟨⟨hmin, ?_⟩, hinside l' (by omega)⟩
        intro data hdata i hi
        exact hnodes data hdata i (hmin ▸ hi)
    · intro hzero
      omega
  · obtain rfl := h.of_fails hsucceeds
    simp only [LoadDone, hsucceeds, false_implies, true_and, iff_true, true_implies]
    exact ⟨hinside l' hl, hl⟩

/-- The runs in which the list is always what the latest load says are those in which each load
finds the list empty. -/
theorem loads_latest_iff (hmax : maxNodeNum ≤ 65535) (calls : List LoadCall)
    (l : DijkstraNodeList) :
    Run (fun l call l' => LoadStep maxNodeNum l call l' ∧ LoadDone maxNodeNum l call l')
        .zero calls l ↔
      Run (Guarded (fun l call => call.Succeeds maxNodeNum l → l.len = 0)
        (LoadStep maxNodeNum)) .zero calls l := by
  apply Run.guarded_iff (I := fun l => l.len ≤ maxNodeNum)
  · exact Nat.zero_le _
  · intro l call l' hl h
    exact h.done_iff hmax hl

def fiveNodes : LoadCall := ⟨some fun i => ⟨i + 1, fun _ => 0⟩, 5⟩

theorem loads_latest_once :
    5 ≤ 65535 ∧ ∃ l, Run (fun l call l' => LoadStep 5 l call l' ∧ LoadDone 5 l call l')
      .zero [fiveNodes] l ∧ l.len = 5 := by
  refine ⟨by decide, (List.range 5).foldl (copyNode fun i => ⟨i + 1, fun _ => 0⟩) .zero, ?_, rfl⟩
  apply (loads_latest_iff (by decide) [fiveNodes] _).mpr
  exact Run.nil.snoc ⟨fun _ => rfl, by decide, rfl⟩

/-- Loaded twice, the list of five nodes counts ten, and the search accepts node 10. -/
theorem loads_add_up :
    ∃ l l', Run (LoadStep 5) .zero [fiveNodes] l ∧ LoadStep 5 l fiveNodes l' ∧
      fiveNodes.Succeeds 5 l ∧ ¬ Latest 5 fiveNodes l' ∧ l'.Has 10 ∧ ¬ 10 - 1 < 5 := by
  let data : ℕ → DijkstraNode := fun i => ⟨i + 1, fun _ => 0⟩
  let l := (List.range 5).foldl (copyNode data) .zero
  let l' := (List.range 5).foldl (copyNode data) l
  have hlen : l'.len = 10 := rfl
  refine ⟨l, l', Run.nil.snoc ⟨by decide, rfl⟩, ⟨by decide, rfl⟩, rfl, ?_, ⟨by decide, hlen.ge⟩,
    by decide⟩
  rintro ⟨hlatest, -⟩
  exact absurd (hlen.symm.trans hlatest) (by decide)

end HsCommon.Dijkstra
