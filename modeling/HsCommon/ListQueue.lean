import HsCommon.LinkedList

/-!
# hs_list.hpp against a queue

The calls of a list are followed by a queue of the values that have not been removed. Pushing keeps
the two in step. `RemoveHead` leaves the value at the head until the list is empty, so there they
stay in step only when the value behind the head is the same.
-/

namespace HsCommon.HSList
variable {T : Type}

inductive QueueCall (T : Type)
  | pushValue (value : T)
  | removeHead

namespace QueueCall

def onQueue (q : List T) : QueueCall T → List T
  | pushValue v => q ++ [v]
  | removeHead => q.tail

def returns (q : List T) : QueueCall T → Option Bool
  | pushValue _ => none
  | removeHead => some (!q.isEmpty)

/-- The call does not uncover a value other than the one it removes. -/
def Repeats (q : List T) : QueueCall T → Prop
  | pushValue _ => True
  | removeHead => ∀ a b rest, q = a :: b :: rest → a = b

end QueueCall

def call (l : HSList T) : QueueCall T → Except Fault (Option Bool × HSList T)
  | .pushValue v => do
    let l ← l.pushValue v
    return (none, l)
  | .removeHead => do
    let (removed, l) ← l.removeHead
    return (some removed, l)

def Shows (l : HSList T) (q : List T) : Prop :=
  l.getCount = q.length ∧ l.getHeadValue = .ok q.head?

def Follows (l : HSList T) (q : List T) : List (QueueCall T) → Prop
  | [] => True
  | c :: cs => ∃ l', l.call c = .ok (c.returns q, l') ∧ l'.Shows (c.onQueue q) ∧
      l'.Follows (c.onQueue q) cs

def Repeating (q : List T) : List (QueueCall T) → Prop
  | [] => True
  | c :: cs => c.Repeats q ∧ Repeating (c.onQueue q) cs

structure Holds (l : HSList T) (q : List T) : Prop where
  ok : l.Ok
  shows : l.Shows q

variable {l : HSList T} {q : List T}

theorem holds_new : (new : HSList T).Holds [] := ⟨new_ok, rfl, rfl⟩

theorem Holds.empty_iff (h : l.Holds q) : l.useableCount = 0 ↔ q = [] := by
  rw [← List.length_eq_zero_iff, ← h.shows.1, getCount]

theorem Holds.pushValue (h : l.Holds q) (value : T) :
    ∃ l', l.call (.pushValue value) = .ok (none, l') ∧ l'.Holds (q ++ [value]) := by
  obtain ⟨l', hpush, hok, hcount, -, hhead⟩ := h.ok.pushValue_spec value
  refine ⟨l', ?_, hok, ?_, ?_⟩
  · simp only [call, hpush]
    rfl
  · have hlen := h.shows.1
    simp only [getCount, List.length_append, List.length_singleton] at hlen ⊢
    rw [hcount, hlen]
  · rw [hhead]
    cases hq : q with
    | nil =>
      rw [if_pos (h.empty_iff.mpr hq)]
      rfl
    | cons a rest =>
      have hne : l.useableCount ≠ 0 := fun h0 => by
        rw [h.empty_iff.mp h0] at hq
        cases hq
      rw [if_neg hne, h.shows.2, hq]
      rfl

theorem Holds.removeHead (h : l.Holds q) :
    ∃ l', l.call .removeHead = .ok (some (!q.isEmpty), l') ∧ l'.Ok ∧
      (l'.Shows q.tail ↔ QueueCall.removeHead.Repeats q) := by
  cases q with
  | nil =>
    have hc := h.empty_iff.mpr rfl
    refine ⟨l, ?_, h.ok, ?_⟩
    · simp only [call, HSList.removeHead, if_pos hc]
      rfl
    · refine iff_of_true h.shows ?_
      intro a b rest hq
      cases hq
  | cons a rest =>
    have hc : l.useableCount ≠ 0 := fun h0 => by
      cases h.empty_iff.mp h0
    obtain ⟨l', hremove, hok, hcount, -, hhead⟩ := h.ok.removeHead_spec hc
    have hlen : l'.useableCount = rest.length := by
      rw [hcount, show l.useableCount = rest.length + 1 from h.shows.1, Nat.add_sub_cancel]
    refine ⟨l', ?_, hok, ?_⟩
    · simp only [call, hremove]
      rfl
    · cases rest with
      | nil =>
        have hnone : l'.head = none := hok.empty hlen
        refine iff_of_true ⟨hlen, ?_⟩ ?_
        · simp only [getHeadValue, hnone, List.tail_cons, List.head?_nil]
        · intro a b rest hq
          cases hq
      | cons b rest =>
        -- the head is still the value removed
        have hstill : l'.getHeadValue = .ok (some a) := by
          rw [hhead (hlen ▸ Nat.succ_ne_zero _), h.shows.2]
          rfl
        constructor
        · rintro ⟨-, hshown⟩ a' b' rest' hq
          obtain ⟨rfl, hrest⟩ := List.cons.inj hq
          obtain ⟨rfl, -⟩ := List.cons.inj hrest
          rw [hstill] at hshown
          exact Option.some.inj (Except.ok.inj hshown)
        · intro hrepeats
          obtain rfl := hrepeats a b rest rfl
          exact ⟨hlen, hstill⟩

theorem Holds.call (h : l.Holds q) (c : QueueCall T) :
    ∃ l', l.call c = .ok (c.returns q, l') ∧ l'.Ok ∧
      (l'.Shows (c.onQueue q) ↔ c.Repeats q) := by
  cases c with
  | pushValue v =>
    obtain ⟨l', hcall, hholds⟩ := h.pushValue v
    exact ⟨l', hcall, hholds.ok, iff_of_true hholds.shows trivial⟩
  | removeHead => exact h.removeHead

theorem Holds.follows_iff (h : l.Holds q) (cs : List (QueueCall T)) :
    l.Follows q cs ↔ Repeating q cs := by
  induction cs generalizing l q with
  | nil => exact Iff.rfl
  | cons c cs ih =>
    obtain ⟨l', hcall, hok, hshows⟩ := h.call c
    constructor
    · rintro ⟨l'', hcall', hshows', hrest⟩
      obtain ⟨-, rfl⟩ := Prod.mk.inj (Except.ok.inj (hcall.symm.trans hcall'))
      exact ⟨hshows.mp hshows', (ih ⟨hok, hshows'⟩).mp hrest⟩
    · rintro ⟨hrepeats, hrest⟩
      have hshows' := hshows.mpr hrepeats
      exact ⟨l', hcall, hshows', (ih ⟨hok, hshows'⟩).mpr hrest⟩

/-- A list is a queue for just those calls in which `RemoveHead` uncovers equal values only. -/
theorem fifo_iff (T : Type) (cs : List (QueueCall T)) :
    (new : HSList T).Follows [] cs ↔ Repeating [] cs :=
  holds_new.follows_iff cs

theorem not_fifo : ¬ (new : HSList ℕ).Follows [] [.pushValue 1, .pushValue 2, .removeHead] := by
  rw [holds_new.follows_iff]
  rintro ⟨-, -, hrepeats, -⟩
  cases hrepeats 1 2 [] rfl

end HsCommon.HSList
