import HsCommon.Define
import HsCommon.Library.Outcome
import HsCommon.Library.Runs

/-!
# The handler_allocator of hs_session.h

The reads and writes of a session take the memory of their operations from one
allocator. It has room for one operation in itself and asks `operator new` for the
others. Operations start and complete in any order, and those that were outstanding
at a `clear()` stay beside the ones started after it.
-/

namespace HsCommon
open Transition

structure HandlerAllocator where
  inUse : Bool

namespace HandlerAllocator

def storageSize : ℕ := 1024

def new : HandlerAllocator := ⟨false⟩

/-- `storage` is the address of `storage_`, `fresh` what `operator new` returns. -/
def allocate (storage fresh size : ℕ) (a : HandlerAllocator) : ℕ × HandlerAllocator :=
  if ¬ a.inUse ∧ size < storageSize then (storage, ⟨true⟩) else (fresh, a)

def deallocate (storage pointer : ℕ) (a : HandlerAllocator) : Option ℕ × HandlerAllocator :=
  if pointer = storage then (none, ⟨false⟩) else (some pointer, a)

end HandlerAllocator

structure Block where
  address : ℕ
  size : ℕ
  deriving DecidableEq

def Block.Apart (b b' : Block) : Prop :=
  b.address ≠ b'.address ∧
    (b.address + b.size ≤ b'.address ∨ b'.address + b'.size ≤ b.address)

instance (b b' : Block) : Decidable (b.Apart b') :=
  inferInstanceAs (Decidable (b.address ≠ b'.address ∧
    (b.address + b.size ≤ b'.address ∨ b'.address + b'.size ≤ b.address)))

theorem Block.Apart.symm {b b' : Block} (h : b.Apart b') : b'.Apart b := ⟨h.1.symm, h.2.symm⟩

/-- `operations` has the memory of the outstanding operations, `heap` the live blocks of
`operator new`. -/
structure OperationMemory where
  allocator : HandlerAllocator
  operations : List Block
  heap : List Block

inductive MemoryEvent
  | started (size fresh : ℕ)
  | completed (k : ℕ)

namespace OperationMemory
open HandlerAllocator

def new : OperationMemory := ⟨.new, [], []⟩

def Possible (storage : ℕ) (m : OperationMemory) : MemoryEvent → Prop
  | .started size fresh =>
    Block.Apart ⟨fresh, size⟩ ⟨storage, storageSize⟩ ∧ ∀ b ∈ m.heap, Block.Apart ⟨fresh, size⟩ b
  | .completed k => k < m.operations.length

instance (storage : ℕ) (m : OperationMemory) : DecidablePred (m.Possible storage)
  | .started size fresh =>
    inferInstanceAs (Decidable (Block.Apart ⟨fresh, size⟩ ⟨storage, storageSize⟩ ∧
      ∀ b ∈ m.heap, Block.Apart ⟨fresh, size⟩ b))
  | .completed k => inferInstanceAs (Decidable (k < m.operations.length))

def delete (pointer : ℕ) (m : OperationMemory) : Except Fault OperationMemory :=
  if ∃ b ∈ m.heap, b.address = pointer then
    .ok { m with heap := m.heap.filter fun b => b.address ≠ pointer }
  else .error .overrun

def exec (storage : ℕ) (m : OperationMemory) : MemoryEvent → Except Fault OperationMemory
  | .started size fresh =>
    let (address, a) := m.allocator.allocate storage fresh size
    .ok {
      allocator := a
      operations := m.operations ++ [⟨address, size⟩]
      heap := if address = fresh then m.heap ++ [⟨fresh, size⟩] else m.heap }
  | .completed k =>
    match m.operations[k]? with
    | none => .ok m
    | some b =>
      let (deleted, a) := m.allocator.deallocate storage b.address
      let m := { m with allocator := a, operations := m.operations.eraseIdx k }
      match deleted with
      | none => .ok m
      | some pointer => m.delete pointer

def Step (storage : ℕ) (m : OperationMemory) (e : MemoryEvent) (m' : OperationMemory) : Prop :=
  m.Possible storage e ∧ m.exec storage e = .ok m'

def next (storage : ℕ) (m : OperationMemory) (e : MemoryEvent) : Option OperationMemory :=
  if m.Possible storage e then (m.exec storage e).toOption else none

theorem run_of_foldlM {storage : ℕ} {α : Type*} {m₀ : OperationMemory} {es : List MemoryEvent}
    {f : OperationMemory → α} {v : α} (h : (es.foldlM (next storage) m₀).map f = some v) :
    ∃ m, Run (Step storage) m₀ es m ∧ f m = v :=
  Run.of_observed (fun _ _ _ => possible_of_next) h

variable {storage : ℕ} {m m' : OperationMemory}

structure Sound (storage : ℕ) (m : OperationMemory) : Prop where
  apart : m.operations.Pairwise Block.Apart
  heap : m.heap = m.operations.filter fun b => b.address ≠ storage
  inUse : m.allocator.inUse = true ↔ ∃ b ∈ m.operations, b.address = storage
  small : ∀ b ∈ m.operations, b.address = storage → b.size < storageSize
  outside : ∀ b ∈ m.operations, b.address ≠ storage → b.Apart ⟨storage, storageSize⟩

theorem sound_new (storage : ℕ) : Sound storage new where
  apart := .nil
  heap := rfl
  inUse := ⟨fun h => Bool.noConfusion h, fun ⟨_, hb, _⟩ => absurd hb List.not_mem_nil⟩
  small _ hb := absurd hb List.not_mem_nil
  outside _ hb := absurd hb List.not_mem_nil

theorem apart_front {b b' : Block} (h : b.Apart ⟨storage, storageSize⟩) (hb' : b'.address = storage)
    (hsize : b'.size < storageSize) : b.Apart b' := by
  obtain ⟨hne, hapart⟩ := h
  refine ⟨hb' ▸ hne, ?_⟩
  rw [hb']
  dsimp only at hapart
  omega

theorem Sound.started (h : Sound storage m) {size fresh : ℕ}
    (hposs : m.Possible storage (.started size fresh)) :
    ∃ m', m.exec storage (.started size fresh) = .ok m' ∧ Sound storage m' := by
  obtain ⟨hstorage, hheap⟩ := hposs
  by_cases hfree : ¬ m.allocator.inUse ∧ size < storageSize
  · have hnone : ∀ b ∈ m.operations, b.address ≠ storage :=
      fun b hb heq => hfree.1 (h.inUse.mpr ⟨b, hb, heq⟩)
    have hne : storage ≠ fresh := hstorage.1.symm
    refine ⟨⟨⟨true⟩, m.operations ++ [⟨storage, size⟩], m.heap⟩, ?_, ?_⟩
    · simp only [OperationMemory.exec, allocate, if_pos hfree, if_neg hne]
    constructor
    · refine List.pairwise_append.mpr ⟨h.apart, List.pairwise_singleton _ _, ?_⟩
      intro b hb b' hb'
      obtain rfl := List.mem_singleton.mp hb'
      exact apart_front (h.outside b hb (hnone b hb)) rfl hfree.2
    · simp [h.heap]
    · simp
    · intro b hb hat
      rcases List.mem_append.mp hb with hb | hb
      · exact absurd hat (hnone b hb)
      · obtain rfl := List.mem_singleton.mp hb
        exact hfree.2
    · intro b hb hout
      rcases List.mem_append.mp hb with hb | hb
      · exact h.outside b hb hout
      · obtain rfl := List.mem_singleton.mp hb
        exact absurd rfl hout
  · have hne : fresh ≠ storage := hstorage.1
    refine ⟨⟨m.allocator, m.operations ++ [⟨fresh, size⟩], m.heap ++ [⟨fresh, size⟩]⟩, ?_, ?_⟩
    · simp only [OperationMemory.exec, allocate, if_neg hfree, if_true]
    constructor
    · refine List.pairwise_append.mpr ⟨h.apart, List.pairwise_singleton _ _, ?_⟩
      intro b hb b' hb'
      obtain rfl := List.mem_singleton.mp hb'
      by_cases hat : b.address = storage
      · exact (apart_front hstorage hat (h.small b hb hat)).symm
      · refine (hheap b ?_).symm
        rw [h.heap]
        simp [hb, hat]
    · simp [h.heap, hne]
    · simp [h.inUse, hne]
    · intro b hb hat
      rcases List.mem_append.mp hb with hb | hb
      · exact h.small b hb hat
      · obtain rfl := List.mem_singleton.mp hb
        exact absurd hat hne
    · intro b hb hout
      rcases List.mem_append.mp hb with hb | hb
      · exact h.outside b hb hout
      · obtain rfl := List.mem_singleton.mp hb
        exact hstorage

theorem filter_address {ops : List Block} (h : ops.Pairwise Block.Apart) {k : ℕ} {b : Block}
    (hk : ops[k]? = some b) : (ops.filter fun x => x.address ≠ b.address) = ops.eraseIdx k := by
  induction ops generalizing k with
  | nil => cases hk
  | cons x ops ih =>
    obtain ⟨hx, hrest⟩ := List.pairwise_cons.mp h
    cases k with
    | zero =>
      obtain rfl : x = b := Option.some.inj hk
      have hall : ∀ y ∈ ops, y.address ≠ x.address := fun y hy => (hx y hy).1.symm
      simpa [List.eraseIdx] using hall
    | succ k =>
      have hmem : b ∈ ops := List.mem_of_getElem? hk
      have hne : x.address ≠ b.address := (hx b hmem).1
      rw [List.filter_cons_of_pos (by simpa using hne), ih hrest hk]
      rfl

theorem Sound.completed (h : Sound storage m) {k : ℕ} (hk : k < m.operations.length) :
    ∃ m', m.exec storage (.completed k) = .ok m' ∧ Sound storage m' := by
  have hop : m.operations[k]? = some m.operations[k] := List.getElem?_eq_getElem hk
  have hmem : m.operations[k] ∈ m.operations := List.getElem_mem hk
  have hsub : ∀ b ∈ m.operations.eraseIdx k, b ∈ m.operations :=
    fun b hb => (List.eraseIdx_sublist _ _).subset hb
  have hleft := filter_address h.apart hop
  have hgone : ∀ b ∈ m.operations.eraseIdx k, b.address ≠ m.operations[k].address := by
    intro b hb
    rw [← hleft] at hb
    simpa using (List.mem_filter.mp hb).2
  by_cases hat : m.operations[k].address = storage
  · refine ⟨⟨⟨false⟩, m.operations.eraseIdx k, m.heap⟩, ?_, ?_⟩
    · simp only [exec, hop, deallocate, if_pos hat]
    rw [hat] at hleft hgone
    constructor
    · exact h.apart.sublist (List.eraseIdx_sublist _ _)
    · dsimp only
      rw [h.heap, ← hleft, List.filter_filter]
      simp
    · refine ⟨fun hin => Bool.noConfusion hin, ?_⟩
      rintro ⟨b, hb, hin⟩
      exact absurd hin (hgone b hb)
    · exact fun b hb => h.small b (hsub b hb)
    · exact fun b hb => h.outside b (hsub b hb)
  · have hlive : ∃ b ∈ m.heap, b.address = m.operations[k].address := by
      refine ⟨m.operations[k], ?_, rfl⟩
      rw [h.heap]
      simp [hat]
    refine ⟨⟨m.allocator, m.operations.eraseIdx k,
      m.heap.filter fun b => b.address ≠ m.operations[k].address⟩, ?_, ?_⟩
    · simp only [exec, hop, deallocate, if_neg hat]
      rw [delete, if_pos hlive]
    constructor
    · exact h.apart.sublist (List.eraseIdx_sublist _ _)
    · dsimp only
      rw [h.heap, ← hleft, List.filter_filter, List.filter_filter]
      simp only [Bool.and_comm]
    · rw [h.inUse]
      constructor
      · rintro ⟨b, hb, hin⟩
        refine ⟨b, ?_, hin⟩
        dsimp only
        rw [← hleft, List.mem_filter]
        refine ⟨hb, ?_⟩
        rw [hin]
        simpa using fun heq : storage = _ => hat heq.symm
      · rintro ⟨b, hb, hin⟩
        exact ⟨b, hsub b hb, hin⟩
    · exact fun b hb => h.small b (hsub b hb)
    · exact fun b hb => h.outside b (hsub b hb)

theorem Sound.exec (h : Sound storage m) {e : MemoryEvent} (hposs : m.Possible storage e) :
    ∃ m', m.exec storage e = .ok m' ∧ Sound storage m' := by
  cases e with
  | started size fresh => exact h.started hposs
  | completed k => exact h.completed hposs

/-- Whatever the order in which operations start and complete, no two of the outstanding ones share
memory, the one in the allocator itself fits there, what `operator new` gave is live exactly as long
as its operation, and nothing else is ever deleted. -/
theorem operations_apart (storage : ℕ) {es : List MemoryEvent} (h : Run (Step storage) new es m) :
    m.operations.Pairwise Block.Apart ∧
      m.heap = (m.operations.filter fun b => b.address ≠ storage) ∧
      (m.allocator.inUse = true ↔ ∃ b ∈ m.operations, b.address = storage) ∧
      (∀ b ∈ m.operations, b.address = storage → b.size < storageSize) ∧
      ∀ e, m.Possible storage e → ∃ m', Step storage m e m' := by
  have hsound : Sound storage m := by
    refine h.invariant (sound_new storage) ?_
    intro m₁ e m₂ h₁ hs
    obtain ⟨m', hexec, hm'⟩ := h₁.exec hs.1
    rw [hs.2] at hexec
    obtain rfl := Except.ok.inj hexec
    exact hm'
  refine ⟨hsound.apart, hsound.heap, hsound.inUse, hsound.small, fun e hposs => ?_⟩
  obtain ⟨m', hexec, -⟩ := hsound.exec hposs
  exact ⟨m', hposs, hexec⟩

theorem operations_apart_reused :
    ∃ m : OperationMemory, m.operations = [⟨5000, 100⟩, ⟨0, 200⟩, ⟨7000, 300⟩] ∧
      m.heap = [⟨5000, 100⟩, ⟨7000, 300⟩] ∧ m.operations.Pairwise Block.Apart := by
  obtain ⟨m, hrun, hm⟩ := @run_of_foldlM 0 _ new [.started 100 5000, .started 100 5000,
    .completed 0, .started 200 6000, .started 300 7000] (fun m => (m.operations, m.heap))
    ([⟨5000, 100⟩, ⟨0, 200⟩, ⟨7000, 300⟩], [⟨5000, 100⟩, ⟨7000, 300⟩]) (by decide)
  obtain ⟨hops, hheap⟩ := Prod.mk.inj hm
  exact ⟨m, hops, hheap, (operations_apart 0 hrun).1⟩

end OperationMemory
end HsCommon
