import HsCommon.Astar.FindPath
import HsCommon.Library.Runs

/-!
# Sequences of allocator calls

The blocks that `list_array` names are those allocated since the allocator was last
freed, at all times. What is handed out lies in them, and twice only across a
recycle. `astar_node_free` stops its loop at the cursor's block, which is one short
of what the cursor has reached and far from what it reached before a recycle.
-/

namespace HsCommon.Astar
open Transition

variable {s s' s₀ : AstarState}

structure Blocks (mark : ℕ) (s : AstarState) : Prop where
  listed : ∀ i b, s.allocData.listArray i = some b → mark < b ∧ b ∈ s.live
  all : ∀ b, mark < b → b ≤ s.mallocs → ∃ i, i ≤ 31 ∧ s.allocData.listArray i = some b
  mark_le : mark ≤ s.mallocs

theorem astarNodeAlloc_blocks (s : AstarState) :
    ((astarNodeAlloc s).2.allocData.listArray = s.allocData.listArray ∧
      (astarNodeAlloc s).2.mallocs = s.mallocs ∧ (astarNodeAlloc s).2.live = s.live) ∨
    ∃ i, i ≤ 31 ∧ s.allocData.listArray i = none ∧
      (astarNodeAlloc s).2.allocData.listArray =
        Function.update s.allocData.listArray i (some (s.mallocs + 1)) ∧
      (astarNodeAlloc s).2.mallocs = s.mallocs + 1 ∧
      (astarNodeAlloc s).2.live = (s.mallocs + 1) :: s.live := by
  rw [astarNodeAlloc_eq]
  split_ifs with hfull hend
  · exact Or.inl ⟨rfl, rfl, rfl⟩
  · cases hb : s.allocData.listArray (s.allocData.curList + 1) with
    | some b =>
      left
      simp only [takeSlot, nextBlock, hb]
      exact ⟨trivial, trivial, trivial⟩
    | none =>
      right
      refine ⟨s.allocData.curList + 1, by omega, hb, ?_⟩
      simp only [takeSlot, nextBlock, hb, mallocBlock, setBlock]
      exact ⟨trivial, trivial, trivial⟩
  · exact Or.inl ⟨rfl, rfl, rfl⟩

theorem Blocks.congr {mark : ℕ} (h : Blocks mark s)
    (hlist : s'.allocData.listArray = s.allocData.listArray) (hm : s'.mallocs = s.mallocs)
    (hlive : s'.live = s.live) : Blocks mark s' := by
  constructor
  · rw [hlist, hlive]
    exact h.listed
  · rw [hlist, hm]
    exact h.all
  · rw [hm]
    exact h.mark_le

theorem Blocks.grow {mark i : ℕ} (h : Blocks mark s) (hi : i ≤ 31)
    (hnone : s.allocData.listArray i = none)
    (hlist : s'.allocData.listArray =
      Function.update s.allocData.listArray i (some (s.mallocs + 1)))
    (hm : s'.mallocs = s.mallocs + 1) (hlive : s'.live = (s.mallocs + 1) :: s.live) :
    Blocks mark s' := by
  constructor
  · intro j b hb
    rw [hlist, Function.update_apply] at hb
    rw [hlive]
    split_ifs at hb with hj
    · obtain rfl := Option.some.inj hb
      exact ⟨Nat.lt_succ_of_le h.mark_le, List.mem_cons_self⟩
    · obtain ⟨hlt, hin⟩ := h.listed j b hb
      exact ⟨hlt, List.mem_cons_of_mem _ hin⟩
  · intro b hlt hle
    rw [hlist]
    by_cases hb : b = s.mallocs + 1
    · exact ⟨i, hi, by rw [hb, Function.update_self]⟩
    · obtain ⟨j, hj, hjb⟩ := h.all b hlt (by omega)
      have hne : j ≠ i := by
        intro he
        rw [he, hnone] at hjb
        cases hjb
      exact ⟨j, hj, by rw [Function.update_of_ne hne, hjb]⟩
  · have := h.mark_le
    omega

theorem Blocks.alloc {mark : ℕ} (h : Blocks mark s) : Blocks mark (astarNodeAlloc s).2 := by
  rcases astarNodeAlloc_blocks s with ⟨hlist, hm, hlive⟩ | ⟨i, hi, hnone, hlist, hm, hlive⟩
  · exact h.congr hlist hm hlive
  · exact h.grow hi hnone hlist hm hlive

theorem Blocks.recycle {mark : ℕ} (h : Blocks mark s) (hs : s.Ok) :
    Blocks mark (astarNodeAllocatorRecycle s) := by
  unfold astarNodeAllocatorRecycle
  split_ifs with hi
  · have hlist : s.allocData.listArray = fun _ => none := by rw [hs.idle hi]; rfl
    apply h.grow (Nat.zero_le 31)
    · rw [hlist]
    · rw [hlist]
      rfl
    · rfl
    · rfl
  · exact h.congr rfl rfl rfl

/-- The blocks `astar_node_free` passes to `free`, in order. -/
def freed (s : AstarState) : List ℕ :=
  (List.range s.allocData.curList).filterMap s.allocData.listArray

theorem freeBlocks_eq (listArray : ℕ → Option ℕ) (is : List ℕ) (s : AstarState) :
    is.foldl (fun s i => freeBlock s (listArray i)) s =
      { s with live := (is.filterMap listArray).foldl List.erase s.live } := by
  induction is generalizing s with
  | nil => rfl
  | cons i is ih =>
    rw [List.foldl_cons, ih]
    cases hb : listArray i with
    | none => rw [List.filterMap_cons_none hb]; rfl
    | some b => rw [List.filterMap_cons_some hb]; rfl

theorem astarNodeFree_eq (s : AstarState) : astarNodeFree s =
    { s with allocData := .zero, live := (freed s).foldl List.erase s.live } := by
  have hfold : (List.range s.allocData.curList).foldl
      (fun t i => freeBlock t (t.allocData.listArray i)) s =
      (List.range s.allocData.curList).foldl
        (fun t i => freeBlock t (s.allocData.listArray i)) s := by
    have key : ∀ (is : List ℕ) (t : AstarState), t.allocData = s.allocData →
        is.foldl (fun t i => freeBlock t (t.allocData.listArray i)) t =
          is.foldl (fun t i => freeBlock t (s.allocData.listArray i)) t := by
      intro is
      induction is with
      | nil => exact fun _ _ => rfl
      | cons i is ih =>
        intro t ht
        rw [List.foldl_cons, List.foldl_cons, ht]
        apply ih
        cases s.allocData.listArray i with
        | none => exact ht
        | some b => exact ht
    exact key _ s rfl
  simp only [astarNodeFree, hfold, freeBlocks_eq]
  rfl

theorem Blocks.free (s : AstarState) : Blocks s.mallocs (astarNodeFree s) := by
  rw [astarNodeFree_eq]
  constructor
  · intro i b hb
    cases hb
  · intro b hlt hle
    exact absurd hle (Nat.not_le_of_lt hlt)
  · exact le_rfl

theorem Blocks.start (nodes : NodePtr → AstarNode) : Blocks 0 (.start nodes) := by
  constructor
  · intro i b hb
    cases hb
  · intro b hlt hle
    exact absurd hle (Nat.not_le_of_lt hlt)
  · exact le_rfl

inductive AllocEvent
  | alloc (node : Option NodePtr)
  | recycle
  | load
  | freeRecycle
  deriving DecidableEq

def AllocEvent.Recycles : AllocEvent → Prop
  | alloc _ => False
  | _ => True

inductive AllocStep : AstarState → AllocEvent → AstarState → Prop
  | alloc {s : AstarState} : AllocStep s (.alloc (astarNodeAlloc s).1) (astarNodeAlloc s).2
  | recycle {s : AstarState} : AllocStep s .recycle (astarNodeAllocatorRecycle s)
  | load {s : AstarState} {data : Option (ℕ → ℤ)} {width height : ℕ} {ta : AstarArray} :
      (hsAstarLoadData data width height ta s).1 = 0 →
      AllocStep s .load (hsAstarLoadData data width height ta s).2.2
  | freeRecycle {s : AstarState} :
      AllocStep s .freeRecycle (astarNodeAllocatorRecycle (astarNodeFree s))

structure Holding (out : List NodePtr) (s : AstarState) : Prop where
  ok : s.Ok
  inited : s.allocData.inited ≠ 0
  blocks : ∃ mark, Blocks mark s
  issued : ∀ p ∈ out, s.Issued p
  nodup : out.Nodup

theorem Holding.recycled (hs : s.Ok) (hb : ∃ mark, Blocks mark s) :
    Holding [] (astarNodeAllocatorRecycle s) := by
  obtain ⟨mark, hb⟩ := hb
  obtain ⟨hok, hi, -⟩ := astarNodeAllocatorRecycle_spec hs
  refine ⟨hok, hi, ⟨mark, hb.recycle hs⟩, ?_, List.nodup_nil⟩
  intro p hp
  cases hp

theorem Holding.alloc {out : List NodePtr} (h : Holding out s) :
    Holding (out ++ (astarNodeAlloc s).1.toList) (astarNodeAlloc s).2 := by
  obtain ⟨mark, hb⟩ := h.blocks
  rcases astarNodeAlloc_spec h.ok h.inited with ⟨-, he⟩ | ⟨-, p, hp, hok, hext, -, hiss, hnew, -⟩
  · rw [he, Option.toList_none, List.append_nil]
    exact h
  · rw [hp, Option.toList_some]
    refine ⟨hok, by rw [hext.inited]; exact h.inited, ⟨mark, hb.alloc⟩, ?_, ?_⟩
    · intro q hq
      rcases List.mem_append.mp hq with hq | hq
      · exact hext.issued (h.issued q hq)
      · rwa [List.mem_singleton.mp hq]
    · apply h.nodup.append (List.nodup_singleton p)
      intro q hq hqp
      rw [List.mem_singleton.mp hqp] at hq
      exact hnew (h.issued p hq)

theorem Holding.live {out : List NodePtr} (h : Holding out s) {p : NodePtr} (hp : p ∈ out) :
    p.block ∈ s.live ∧ p.slot < allocOneListSize := by
  obtain ⟨mark, hb⟩ := h.blocks
  obtain ⟨i, hi, hslot, -⟩ := h.issued p hp
  exact ⟨(hb.listed i _ hi).2, hslot⟩

def handOut (out : List NodePtr) : AllocEvent → List NodePtr
  | .alloc node => out ++ node.toList
  | _ => []

theorem AllocStep.holding {e : AllocEvent} {out : List NodePtr} (h : AllocStep s e s')
    (hs : Holding out s ∨ e.Recycles ∧ s.Ok ∧ ∃ mark, Blocks mark s) :
    Holding (handOut out e) s' := by
  have hidle : s.Ok ∧ ∃ mark, Blocks mark s := by
    rcases hs with hs | hs
    · exact ⟨hs.ok, hs.blocks⟩
    · exact hs.2
  cases h with
  | alloc =>
    rcases hs with hs | hs
    · exact hs.alloc
    · exact hs.1.elim
  | recycle => exact .recycled hidle.1 hidle.2
  | load hload =>
    rw [(hsAstarLoadData_loaded hload).2]
    exact .recycled hidle.1 hidle.2
  | freeRecycle => exact .recycled (astarNodeFree_ok s) ⟨_, Blocks.free s⟩

theorem allocRun_holding {nodes : NodePtr → AstarNode} {es : List AllocEvent}
    (h : Run AllocStep (.start nodes) es s) (hhead : ∀ e, es.head? = some e → e.Recycles) :
    es = [] ∧ s = .start nodes ∨ Holding (es.foldl handOut []) s := by
  induction h with
  | nil => exact Or.inl ⟨rfl, rfl⟩
  | @snoc es s s' e hrun hstep ih =>
    right
    rw [List.foldl_append, List.foldl_cons, List.foldl_nil]
    have hfirst : ∀ e, es.head? = some e → e.Recycles := by
      intro e' he'
      apply hhead
      rw [List.head?_append, he']
      rfl
    rcases ih hfirst with ⟨rfl, rfl⟩ | hs
    · exact hstep.holding (Or.inr ⟨hhead e rfl, AstarState.start_ok nodes, 0, Blocks.start nodes⟩)
    · exact hstep.holding (Or.inl hs)

theorem foldl_handOut_alloc (returned : List (Option NodePtr)) (out : List NodePtr) :
    (returned.map AllocEvent.alloc).foldl handOut out = out ++ returned.filterMap id := by
  induction returned generalizing out with
  | nil => exact (List.append_nil out).symm
  | cons node returned ih =>
    rw [List.map_cons, List.foldl_cons, ih]
    cases node with
    | none => simp [handOut]
    | some p => simp [handOut]

/-- What is returned since a recycle lies in live blocks and is pairwise distinct. -/
theorem alloc_live_nodup {nodes : NodePtr → AstarNode} {before : List AllocEvent}
    {last : AllocEvent} {returned : List (Option NodePtr)}
    (h : Run AllocStep (.start nodes) (before ++ last :: returned.map .alloc) s)
    (hhead : ∀ e, (before ++ last :: returned.map .alloc).head? = some e → e.Recycles)
    (hlast : last.Recycles) :
    (returned.filterMap id).Nodup ∧
      ∀ p, some p ∈ returned → p.block ∈ s.live ∧ p.slot < allocOneListSize := by
  rcases allocRun_holding h hhead with ⟨hnil, -⟩ | hs
  · simp at hnil
  · have hreset : handOut (before.foldl handOut []) last = [] := by
      cases last with
      | alloc node => exact hlast.elim
      | recycle => rfl
      | load => rfl
      | freeRecycle => rfl
    rw [List.foldl_append, List.foldl_cons, hreset, foldl_handOut_alloc, List.nil_append] at hs
    exact ⟨hs.nodup, fun p hp => hs.live (List.mem_filterMap.mpr ⟨some p, hp, rfl⟩)⟩

theorem alloc_twice :
    ∃ s, Run AllocStep (.start fun _ => .zero)
        [.recycle, .alloc (some ⟨1, 0⟩), .alloc (some ⟨1, 1⟩)] s ∧
      [NodePtr.mk 1 0, NodePtr.mk 1 1].Nodup ∧ 1 ∈ s.live := by
  have hrun : Run AllocStep (.start fun _ => .zero)
      ([] ++ .recycle :: [some ⟨1, 0⟩, some ⟨1, 1⟩].map .alloc)
      (astarNodeAlloc (astarNodeAlloc (astarNodeAllocatorRecycle (.start fun _ => .zero))).2).2 :=
    ((Run.nil.snoc .recycle).snoc .alloc).snoc .alloc
  have hkept := alloc_live_nodup hrun (by simp [AllocEvent.Recycles]) trivial
  exact ⟨_, hrun, hkept.1, (hkept.2 ⟨1, 0⟩ List.mem_cons_self).1⟩

inductive FreeEvent
  | alloc
  | recycle
  | free
  deriving DecidableEq

inductive FreeStep : AstarState → FreeEvent → AstarState → Prop
  | alloc {s : AstarState} : s.allocData.inited ≠ 0 → FreeStep s .alloc (astarNodeAlloc s).2
  | recycle {s : AstarState} : FreeStep s .recycle (astarNodeAllocatorRecycle s)
  | free {s : AstarState} : FreeStep s .free (astarNodeFree s)

theorem FreeStep.ok {e : FreeEvent} (h : FreeStep s e s') (hs : s.Ok) : s'.Ok := by
  cases h with
  | alloc hi =>
    rcases astarNodeAlloc_spec hs hi with ⟨-, he⟩ | ⟨-, p, -, hok, -⟩
    · rwa [he]
    · exact hok
  | recycle => exact (astarNodeAllocatorRecycle_spec hs).1
  | free => exact astarNodeFree_ok s

theorem FreeStep.blocks {e : FreeEvent} {mark : ℕ} (h : FreeStep s e s') (he : e ≠ .free)
    (hs : s.Ok) (hb : Blocks mark s) : Blocks mark s' := by
  cases h with
  | alloc hi => exact hb.alloc
  | recycle => exact hb.recycle hs
  | free => exact absurd rfl he

theorem freeRun_ok {es : List FreeEvent} (h : Run FreeStep s₀ es s) (h₀ : s₀.Ok) : s.Ok :=
  h.invariant h₀ fun _ _ _ hs hstep => hstep.ok hs

theorem freeRun_blocks {es : List FreeEvent} {mark : ℕ} (h : Run FreeStep s₀ es s) (h₀ : s₀.Ok)
    (hb : Blocks mark s₀) (hes : .free ∉ es) : Blocks mark s := by
  induction h with
  | nil => exact hb
  | snoc hrun hstep ih =>
    have hbefore := ih fun hin => hes (List.mem_append_left _ hin)
    refine hstep.blocks ?_ (freeRun_ok hrun h₀) hbefore
    intro he
    rw [he] at hes
    exact hes (List.mem_append_right _ List.mem_cons_self)

theorem freeRun_mark {nodes : NodePtr → AstarNode} {es : List FreeEvent}
    (h : Run FreeStep (.start nodes) es s) (hlast : ∀ e, es.getLast? = some e → e = .free) :
    Blocks s.mallocs s := by
  cases h with
  | nil => exact Blocks.start nodes
  | @snoc es s _ e hrun hstep =>
    obtain rfl := hlast e List.getLast?_concat
    cases hstep with
    | free =>
      have hm : (astarNodeFree s).mallocs = s.mallocs := by rw [astarNodeFree_eq]
      rw [hm]
      exact Blocks.free s

theorem mem_freed {b : ℕ} :
    b ∈ freed s ↔ ∃ i < s.allocData.curList, s.allocData.listArray i = some b := by
  simp only [freed, List.mem_filterMap, List.mem_range]

theorem not_mem_freed_iff {mark b : ℕ} (hs : s.Ok) (hb : Blocks mark s) (hlt : mark < b)
    (hle : b ≤ s.mallocs) :
    b ∉ freed s ↔
      ∃ i, s.allocData.curList ≤ i ∧ i ≤ 31 ∧ s.allocData.listArray i = some b := by
  obtain ⟨i, hi, hib⟩ := hb.all b hlt hle
  rw [mem_freed]
  constructor
  · intro hnot
    refine ⟨i, ?_, hi, hib⟩
    by_contra hcur
    exact hnot ⟨i, by omega, hib⟩
  · rintro ⟨j, hj, -, hjb⟩ ⟨k, hk, hkb⟩
    have := hs.inj j k b hjb hkb
    omega

/-- A free passes on the blocks malloc'ed since the previous one exactly when there are none: the
cursor's block is left out of every other free. -/
theorem freed_all_iff {nodes : NodePtr → AstarNode} {before between : List FreeEvent}
    (h₀ : Run FreeStep (.start nodes) before s₀)
    (hlast : ∀ e, before.getLast? = some e → e = .free) (h : Run FreeStep s₀ between s)
    (hbetween : .free ∉ between) :
    (freed s).Perm (List.range' (s₀.mallocs + 1) (s.mallocs - s₀.mallocs)) ↔
      s.allocData.inited = 0 := by
  have hok₀ := freeRun_ok h₀ (AstarState.start_ok nodes)
  have hs := freeRun_ok h hok₀
  have hb := freeRun_blocks h hok₀ (freeRun_mark h₀ hlast) hbetween
  constructor
  · intro hperm
    by_contra hi
    obtain ⟨b, hcur⟩ := Option.isSome_iff_exists.mp (hs.block hi _ le_rfl)
    have hlt := (hb.listed _ b hcur).1
    have hle := hs.fresh _ b hcur
    have hin : b ∈ List.range' (s₀.mallocs + 1) (s.mallocs - s₀.mallocs) := by
      rw [List.mem_range'_1]
      omega
    have hout := (not_mem_freed_iff hs hb hlt hle).mpr ⟨_, le_rfl, hs.list_le, hcur⟩
    exact hout (hperm.mem_iff.mpr hin)
  · intro hi
    have hz := hs.idle hi
    have hnone : s.mallocs - s₀.mallocs = 0 := by
      by_contra hne
      obtain ⟨i, -, hib⟩ := hb.all s.mallocs (by omega) le_rfl
      rw [hz] at hib
      cases hib
    rw [hnone, freed, hz]
    exact List.Perm.refl []

theorem freed_all_start :
    (freed (.start fun _ => .zero)).Perm [] ∧
      ¬ (freed (astarNodeAllocatorRecycle (.start fun _ => .zero))).Perm [1] := by
  have hempty : Run FreeStep (.start fun _ => .zero) [] (.start fun _ => .zero) := .nil
  have hlast : ∀ e, ([] : List FreeEvent).getLast? = some e → e = .free := by
    intro e he
    cases he
  constructor
  · exact (freed_all_iff hempty hlast hempty List.not_mem_nil).mpr rfl
  · intro hperm
    have hrun := hempty.snoc FreeStep.recycle
    exact absurd ((freed_all_iff hempty hlast hrun (by simp)).mp hperm) (by decide)

theorem first_block_lost :
    ¬ ∀ (nodes : NodePtr → AstarNode) (before between : List FreeEvent) (s₀ s : AstarState),
      Run FreeStep (.start nodes) before s₀ → (∀ e, before.getLast? = some e → e = .free) →
      Run FreeStep s₀ between s → .free ∉ between →
      (freed s).Perm (List.range' (s₀.mallocs + 1) (s.mallocs - s₀.mallocs)) := by
  intro h
  have hrun : Run FreeStep (.start fun _ => .zero) [.recycle]
      (astarNodeAllocatorRecycle (.start fun _ => .zero)) := Run.nil.snoc .recycle
  have hperm := h _ [] [.recycle] _ _ .nil (by simp) hrun (by simp)
  exact absurd hperm (by decide)

end HsCommon.Astar
