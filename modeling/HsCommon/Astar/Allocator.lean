import HsCommon.Astar.Grid

/-!
# The node allocator

`_node_alloc_data` hands out the slots of up to 32 blocks of 128 nodes, in order,
and is shared by all searches. A block is named by the number of the `malloc`
call that made it, counting from 1; address 0 is NULL, so slot 0 of a block that
was never allocated is the NULL pointer and its other slots are wild pointers.
Slots keep what earlier searches left in them. `malloc` itself does not fail.
-/

namespace HsCommon.Astar

structure NodePtr where
  block : ℕ
  slot : ℕ
  deriving DecidableEq, Repr

structure AstarNode where
  index : ℤ
  state : ℤ
  f : ℤ
  g : ℤ
  h : ℤ
  parent : Option NodePtr
  deriving DecidableEq, Repr

def AstarNode.zero : AstarNode := ⟨0, 0, 0, 0, 0, none⟩

def allocListArraySize : ℕ := 32
def allocOneListSize : ℕ := 128

structure NodeAllocData where
  inited : ℕ
  curList : ℕ
  curIndex : ℕ
  listArray : ℕ → Option ℕ

/-- The globals of `hs_astar.cpp` with the memory the nodes live in. `live` lists
the blocks that are allocated and not yet freed. -/
structure AstarState where
  allocData : NodeAllocData
  nodes : NodePtr → AstarNode
  mallocs : ℕ
  live : List ℕ

def NodeAllocData.zero : NodeAllocData := ⟨0, 0, 0, fun _ => none⟩

def AstarState.start (nodes : NodePtr → AstarNode) : AstarState := ⟨.zero, nodes, 0, []⟩

def mallocBlock (s : AstarState) : ℕ × AstarState :=
  let b := s.mallocs + 1
  (b, { s with
    mallocs := b
    live := b :: s.live
    nodes := fun p => if p.block = b then .zero else s.nodes p })

def setBlock (s : AstarState) (i b : ℕ) : AstarState :=
  { s with allocData :=
    { s.allocData with listArray := Function.update s.allocData.listArray i (some b) } }

def atarNodeAllocatorInit (s : AstarState) : AstarState :=
  let (b, s) := mallocBlock { s with allocData := .zero }
  let s := setBlock s 0 b
  { s with allocData := { s.allocData with inited := 1 } }

def nextBlock (s : AstarState) : AstarState :=
  let s := match s.allocData.listArray (s.allocData.curList + 1) with
    | some _ => s
    | none =>
      let (b, s) := mallocBlock s
      setBlock s (s.allocData.curList + 1) b
  { s with allocData :=
    { s.allocData with curList := u16Add s.allocData.curList 1, curIndex := 0 } }

def slotPtr (block : Option ℕ) (slot : ℕ) : Option NodePtr :=
  match block with
  | some b => some ⟨b, slot⟩
  | none => if slot = 0 then none else some ⟨0, slot⟩

def takeSlot (s : AstarState) : Option NodePtr × AstarState :=
  (slotPtr (s.allocData.listArray s.allocData.curList) s.allocData.curIndex,
    { s with allocData := { s.allocData with curIndex := u16Add s.allocData.curIndex 1 } })

def astarNodeAlloc (s : AstarState) : Option NodePtr × AstarState :=
  if s.allocData.curList ≥ allocListArraySize - 1 ∧ s.allocData.curIndex ≥ allocOneListSize - 1 then
    (none, s)
  else if s.allocData.curIndex ≥ allocOneListSize then takeSlot (nextBlock s)
  else takeSlot s

theorem astarNodeAlloc_eq (s : AstarState) : astarNodeAlloc s =
    if s.allocData.curList ≥ 31 ∧ s.allocData.curIndex ≥ 127 then (none, s)
    else if s.allocData.curIndex ≥ 128 then takeSlot (nextBlock s) else takeSlot s := rfl

def astarNodeAllocatorRecycle (s : AstarState) : AstarState :=
  if s.allocData.inited = 0 then atarNodeAllocatorInit s
  else { s with allocData := { s.allocData with curIndex := 0, curList := 0 } }

def freeBlock (s : AstarState) : Option ℕ → AstarState
  | some b => { s with live := s.live.erase b }
  | none => s

def astarNodeFree (s : AstarState) : AstarState :=
  let s := (List.range s.allocData.curList).foldl
    (fun s i => freeBlock s (s.allocData.listArray i)) s
  { s with allocData := .zero }

namespace AstarState
variable (s : AstarState)

def cursor : ℕ := s.allocData.curList * 128 + s.allocData.curIndex

structure Ok : Prop where
  idle : s.allocData.inited = 0 → s.allocData = .zero
  list_le : s.allocData.curList ≤ 31
  index_le : s.allocData.curIndex ≤ 128
  block : s.allocData.inited ≠ 0 → ∀ i ≤ s.allocData.curList, (s.allocData.listArray i).isSome
  fresh : ∀ i b, s.allocData.listArray i = some b → b ≤ s.mallocs
  inj : ∀ i j b, s.allocData.listArray i = some b → s.allocData.listArray j = some b → i = j

def Issued (p : NodePtr) : Prop :=
  ∃ i, s.allocData.listArray i = some p.block ∧ p.slot < 128 ∧ i * 128 + p.slot < s.cursor

end AstarState

structure Extends (s s' : AstarState) : Prop where
  inited : s'.allocData.inited = s.allocData.inited
  cursor_le : s.cursor ≤ s'.cursor
  listed : ∀ i b, s.allocData.listArray i = some b → s'.allocData.listArray i = some b

theorem Extends.trans {s t u : AstarState} (h : Extends s t) (h' : Extends t u) : Extends s u :=
  ⟨h'.inited.trans h.inited, h.cursor_le.trans h'.cursor_le,
    fun i b hb => h'.listed i b (h.listed i b hb)⟩

theorem Extends.issued {s s' : AstarState} (h : Extends s s') {p : NodePtr} (hp : s.Issued p) :
    s'.Issued p := by
  obtain ⟨i, hi, hs, hc⟩ := hp
  exact ⟨i, h.listed i _ hi, hs, hc.trans_le h.cursor_le⟩

theorem AstarState.start_ok (nodes : NodePtr → AstarNode) : (AstarState.start nodes).Ok where
  idle _ := rfl
  list_le := by simp [AstarState.start, NodeAllocData.zero]
  index_le := by simp [AstarState.start, NodeAllocData.zero]
  block h := absurd rfl h
  fresh _ _ h := by simp [AstarState.start, NodeAllocData.zero] at h
  inj _ _ _ h := by simp [AstarState.start, NodeAllocData.zero] at h

theorem nextBlock_listed {s : AstarState} {b : ℕ} (hl : s.allocData.curList < 31)
    (hb : s.allocData.listArray (s.allocData.curList + 1) = some b) :
    nextBlock s = { s with allocData :=
      { s.allocData with curList := s.allocData.curList + 1, curIndex := 0 } } := by
  have hadd : u16Add s.allocData.curList 1 = s.allocData.curList + 1 := u16Add_eq (by omega)
  simp only [nextBlock, hb, hadd]

theorem nextBlock_malloc {s : AstarState} (hl : s.allocData.curList < 31)
    (hb : s.allocData.listArray (s.allocData.curList + 1) = none) :
    nextBlock s =
      { allocData :=
          { s.allocData with
            curList := s.allocData.curList + 1
            curIndex := 0
            listArray := Function.update s.allocData.listArray (s.allocData.curList + 1)
              (some (s.mallocs + 1)) }
        nodes := fun p => if p.block = s.mallocs + 1 then .zero else s.nodes p
        mallocs := s.mallocs + 1
        live := (s.mallocs + 1) :: s.live } := by
  have hadd : u16Add s.allocData.curList 1 = s.allocData.curList + 1 := u16Add_eq (by omega)
  simp only [nextBlock, hb, mallocBlock, setBlock, hadd]

theorem nextBlock_ok {s : AstarState} (hs : s.Ok) (hi : s.allocData.inited ≠ 0)
    (hl : s.allocData.curList < 31) : (nextBlock s).Ok := by
  cases hb : s.allocData.listArray (s.allocData.curList + 1) with
  | some b =>
    rw [nextBlock_listed hl hb]
    refine ⟨fun h => absurd h hi, by dsimp only; omega, by dsimp only; omega, ?_, hs.fresh, hs.inj⟩
    intro _ i hile
    dsimp only at hile ⊢
    rcases Nat.lt_or_eq_of_le hile with h | h
    · exact hs.block hi i (by omega)
    · rw [h, hb]
      rfl
  | none =>
    rw [nextBlock_malloc hl hb]
    have hlist : ∀ i, Function.update s.allocData.listArray (s.allocData.curList + 1)
        (some (s.mallocs + 1)) i =
          if i = s.allocData.curList + 1 then some (s.mallocs + 1)
          else s.allocData.listArray i := fun i => Function.update_apply ..
    refine ⟨fun h => absurd h hi, by dsimp only; omega, by dsimp only; omega, ?_, ?_, ?_⟩
    · intro _ i hile
      dsimp only at hile ⊢
      rw [hlist]
      split_ifs with h
      · rfl
      · exact hs.block hi i (by omega)
    · intro i b hib
      dsimp only at hib ⊢
      rw [hlist] at hib
      split_ifs at hib with h
      · obtain rfl := Option.some.inj hib
        exact le_rfl
      · exact (hs.fresh i b hib).trans (Nat.le_succ _)
    · intro i j b hib hjb
      dsimp only at hib hjb
      rw [hlist] at hib hjb
      split_ifs at hib hjb with h h' h'
      · rw [h, h']
      · obtain rfl := Option.some.inj hib
        have := hs.fresh j _ hjb
        omega
      · obtain rfl := Option.some.inj hjb
        have := hs.fresh i _ hib
        omega
      · exact hs.inj i j b hib hjb

theorem nextBlock_spec {s : AstarState} (hs : s.Ok) (hi : s.allocData.inited ≠ 0)
    (hl : s.allocData.curList < 31) (hx : s.allocData.curIndex = 128) :
    (nextBlock s).Ok ∧ Extends s (nextBlock s) ∧ (nextBlock s).allocData.curIndex = 0 ∧
      (nextBlock s).cursor = s.cursor ∧
      ∀ p, p.block ≤ s.mallocs → (nextBlock s).nodes p = s.nodes p := by
  refine ⟨nextBlock_ok hs hi hl, ?_⟩
  cases hb : s.allocData.listArray (s.allocData.curList + 1) with
  | some b =>
    rw [nextBlock_listed hl hb]
    have hcur : (s.allocData.curList + 1) * 128 + 0 = s.cursor := by
      simp only [AstarState.cursor, hx]
      omega
    exact ⟨⟨rfl, hcur.ge, fun _ _ h => h⟩, rfl, hcur, fun _ _ => rfl⟩
  | none =>
    rw [nextBlock_malloc hl hb]
    have hcur : (s.allocData.curList + 1) * 128 + 0 = s.cursor := by
      simp only [AstarState.cursor, hx]
      omega
    refine ⟨⟨rfl, hcur.ge, fun i b hib => ?_⟩, rfl, hcur, fun p hp => ?_⟩
    · have hne : i ≠ s.allocData.curList + 1 := by
        rintro rfl
        rw [hb] at hib
        cases hib
      simpa only [Function.update_of_ne hne] using hib
    · dsimp only
      rw [if_neg (by omega)]

theorem takeSlot_spec {s : AstarState} (hs : s.Ok) (hi : s.allocData.inited ≠ 0)
    (hx : s.allocData.curIndex < 128) :
    ∃ p, (takeSlot s).1 = some p ∧ (takeSlot s).2.Ok ∧ Extends s (takeSlot s).2 ∧
      (takeSlot s).2.cursor = s.cursor + 1 ∧ (takeSlot s).2.Issued p ∧ ¬ s.Issued p ∧
      (takeSlot s).2.nodes = s.nodes := by
  obtain ⟨b, hb⟩ := Option.isSome_iff_exists.mp (hs.block hi _ le_rfl)
  have hadd : u16Add s.allocData.curIndex 1 = s.allocData.curIndex + 1 := u16Add_eq (by omega)
  have hcur : (takeSlot s).2.cursor = s.cursor + 1 := by
    simp only [takeSlot, AstarState.cursor, hadd]
    omega
  refine ⟨⟨b, s.allocData.curIndex⟩, by simp only [takeSlot, slotPtr, hb], ?_,
    ⟨rfl, by omega, fun _ _ h => h⟩, hcur, ⟨s.allocData.curList, hb, hx, ?_⟩, ?_, rfl⟩
  · refine ⟨fun h => absurd h hi, hs.list_le, ?_, hs.block, hs.fresh, hs.inj⟩
    simp only [takeSlot, hadd]
    omega
  · rw [hcur]
    simp only [AstarState.cursor]
    omega
  · rintro ⟨i, hib, -, hlt⟩
    obtain rfl := hs.inj i _ b hib hb
    simp only [AstarState.cursor] at hlt
    omega

theorem astarNodeAlloc_idle {s : AstarState} (hs : s.Ok) (hi : s.allocData.inited = 0) :
    (astarNodeAlloc s).1 = none := by
  have hz := hs.idle hi
  simp [astarNodeAlloc_eq, takeSlot, slotPtr, hz, NodeAllocData.zero]

theorem inited_of_alloc {s s' : AstarState} {p : NodePtr} (hs : s.Ok)
    (h : astarNodeAlloc s = (some p, s')) : s.allocData.inited ≠ 0 := by
  intro hi
  have hnone := astarNodeAlloc_idle hs hi
  rw [h] at hnone
  cases hnone

/-- The allocator fails exactly when 4095 slots are out; otherwise it issues a slot that was not
out before and touches no node but those of a block it has just made. -/
theorem astarNodeAlloc_spec {s : AstarState} (hs : s.Ok) (hi : s.allocData.inited ≠ 0) :
    (4095 ≤ s.cursor ∧ astarNodeAlloc s = (none, s)) ∨
    (s.cursor < 4095 ∧ ∃ p, (astarNodeAlloc s).1 = some p ∧ (astarNodeAlloc s).2.Ok ∧
      Extends s (astarNodeAlloc s).2 ∧ (astarNodeAlloc s).2.cursor = s.cursor + 1 ∧
      (astarNodeAlloc s).2.Issued p ∧ ¬ s.Issued p ∧
      ∀ q, s.Issued q → (astarNodeAlloc s).2.nodes q = s.nodes q) := by
  have hl := hs.list_le
  have hx := hs.index_le
  by_cases hfull : s.allocData.curList ≥ 31 ∧ s.allocData.curIndex ≥ 127
  · refine Or.inl ⟨?_, if_pos hfull⟩
    simp only [AstarState.cursor]
    omega
  · refine Or.inr ⟨by simp only [AstarState.cursor]; omega, ?_⟩
    by_cases hend : s.allocData.curIndex ≥ 128
    · have he : astarNodeAlloc s = takeSlot (nextBlock s) := by
        rw [astarNodeAlloc_eq, if_neg hfull, if_pos hend]
      obtain ⟨hok, hext, hx0, hcur, hnodes⟩ := nextBlock_spec hs hi (by omega) (by omega)
      obtain ⟨p, hp, hok', hext', hcur', hiss, hnew, hnode'⟩ :=
        takeSlot_spec hok (by rw [hext.inited]; exact hi) (by omega)
      rw [he]
      refine ⟨p, hp, hok', hext.trans hext', by omega, hiss, fun h => hnew (hext.issued h), ?_⟩
      rintro q ⟨i, hib, -⟩
      rw [hnode', hnodes q (hs.fresh i _ hib)]
    · have he : astarNodeAlloc s = takeSlot s := by
        rw [astarNodeAlloc_eq, if_neg hfull, if_neg hend]
      obtain ⟨p, hp, hok', hext', hcur', hiss, hnew, hnode'⟩ := takeSlot_spec hs hi (by omega)
      rw [he]
      exact ⟨p, hp, hok', hext', hcur', hiss, hnew, fun q _ => by rw [hnode']⟩

theorem atarNodeAllocatorInit_spec (s : AstarState) :
    (atarNodeAllocatorInit s).Ok ∧ (atarNodeAllocatorInit s).allocData.inited = 1 ∧
      (atarNodeAllocatorInit s).cursor = 0 := by
  have he : atarNodeAllocatorInit s =
      { allocData := ⟨1, 0, 0, Function.update (fun _ => none) 0 (some (s.mallocs + 1))⟩
        nodes := fun p => if p.block = s.mallocs + 1 then .zero else s.nodes p
        mallocs := s.mallocs + 1
        live := (s.mallocs + 1) :: s.live } := rfl
  rw [he]
  refine ⟨⟨fun h => absurd h Nat.one_ne_zero, Nat.zero_le _, Nat.zero_le _, ?_, ?_, ?_⟩, rfl, rfl⟩
  · intro _ i hile
    obtain rfl : i = 0 := Nat.le_zero.mp hile
    rfl
  · intro i b hib
    dsimp only at hib ⊢
    by_cases h : i = 0
    · subst h
      obtain rfl := Option.some.inj hib
      exact le_rfl
    · rw [Function.update_of_ne h] at hib
      cases hib
  · intro i j b hib hjb
    dsimp only at hib hjb
    by_cases h : i = 0 <;> by_cases h' : j = 0
    · rw [h, h']
    · rw [Function.update_of_ne h'] at hjb
      cases hjb
    · rw [Function.update_of_ne h] at hib
      cases hib
    · rw [Function.update_of_ne h] at hib
      cases hib

theorem astarNodeAllocatorRecycle_spec {s : AstarState} (hs : s.Ok) :
    (astarNodeAllocatorRecycle s).Ok ∧ (astarNodeAllocatorRecycle s).allocData.inited ≠ 0 ∧
      (astarNodeAllocatorRecycle s).cursor = 0 := by
  by_cases hi : s.allocData.inited = 0
  · rw [astarNodeAllocatorRecycle, if_pos hi]
    obtain ⟨hok, hone, hcur⟩ := atarNodeAllocatorInit_spec s
    exact ⟨hok, by omega, hcur⟩
  · rw [astarNodeAllocatorRecycle, if_neg hi]
    refine ⟨⟨fun h => absurd h hi, Nat.zero_le _, Nat.zero_le _, ?_, hs.fresh, hs.inj⟩, hi, rfl⟩
    intro _ i hile
    exact hs.block hi i (hile.trans (Nat.zero_le _))

theorem astarNodeFree_ok (s : AstarState) : (astarNodeFree s).Ok where
  idle _ := rfl
  list_le := Nat.zero_le _
  index_le := Nat.zero_le _
  block h := absurd rfl h
  fresh _ _ h := by cases h
  inj _ _ _ h := by cases h

end HsCommon.Astar
