import HsCommon.ListQueue
import HsCommon.Library.Outcome
import HsCommon.Library.Runs

/-!
# The nodes of a list

A node that is removed is meant to be used again. `MoveHead2Tail` cuts the head off from what
follows it and hangs it under the recycled tail, never behind the tail, where `PushValue` would look
for it: each push makes a node, and the first removal loses the nodes behind the head.
-/

namespace HsCommon.HSList
open Transition

variable {T : Type}

def Next (l : HSList T) (p q : ℕ) : Prop := ∃ n, l.nodes p = some n ∧ n.next = some q

def Reachable (l : HSList T) (p : ℕ) : Prop :=
  ∃ a, (l.head = some a ∨ l.recycledTail = some a) ∧ Relation.ReflTransGen l.Next a p

structure Peak (T : Type) where
  list : HSList T
  peak : ℕ

namespace Peak

def new : Peak T := ⟨.new, 0⟩

def Step (s : Peak T) (c : QueueCall T) (s' : Peak T) : Prop :=
  (∃ returned, s.list.call c = .ok (returned, s'.list)) ∧
    s'.peak = max s.peak s'.list.getCount

def Reused (s : Peak T) : Prop :=
  s.list.totalCount ≤ s.peak ∧ ∀ p n, s.list.nodes p = some n → s.list.Reachable p

/-- A push finds that nothing has been removed yet, a removal at most one value. -/
def Spare (s : Peak T) : QueueCall T → Prop
  | .pushValue _ => s.list.recycledTail = none
  | .removeHead => s.list.getCount ≤ 1

end Peak

structure Pushed (l : HSList T) : Prop where
  row : ∀ p < l.totalCount, ∃ v,
    l.nodes p = some ⟨v, if p + 1 < l.totalCount then some (p + 1) else none⟩
  first : l.totalCount ≠ 0 → l.head = some 0
  last : l.totalCount ≠ 0 → l.tail = some (l.totalCount - 1)
  recycled : l.recycledTail = none
  count : l.useableCount = l.totalCount

structure Spent (l : HSList T) : Prop where
  recycled : l.recycledTail = some 0
  count : l.useableCount = 0
  total : l.totalCount = 1

variable {l l' : HSList T}

theorem pushed_new : (new : HSList T).Pushed where
  row _ hp := absurd hp (Nat.not_lt_zero _)
  first h := absurd rfl h
  last h := absurd rfl h
  recycled := rfl
  count := rfl

theorem Pushed.next (h : l.Pushed) {p : ℕ} (hp : p + 1 < l.totalCount) : l.Next p (p + 1) := by
  obtain ⟨v, hv⟩ := h.row p (by omega)
  rw [if_pos hp] at hv
  exact ⟨_, hv, rfl⟩

theorem Pushed.reachable (h : l.Pushed) {p : ℕ} (hp : p < l.totalCount) : l.Reachable p := by
  refine ⟨0, Or.inl (h.first (by omega)), ?_⟩
  induction p with
  | zero => exact .refl
  | succ p ih => exact (ih (by omega)).tail (h.next hp)

theorem Pushed.pushValue (h : l.Pushed) (hok : l.Ok) {value : T}
    (hpush : l.pushValue value = .ok l') : l'.Pushed := by
  by_cases hc : l.useableCount = 0
  · have hzero : l.totalCount = 0 := h.count.symm.trans hc
    obtain rfl := Except.ok.inj ((hok.pushValue_empty hc value).symm.trans hpush)
    refine ⟨fun p hp => ?_, fun _ => congrArg some hzero, fun _ => rfl, h.recycled,
      congrArg (· + 1) h.count⟩
    dsimp only at hp ⊢
    obtain rfl : p = l.totalCount := by omega
    exact ⟨value, by rw [Function.update_self, if_neg (lt_irrefl _)]⟩
  · have hpos : l.totalCount ≠ 0 := h.count ▸ hc
    obtain ⟨v, hv⟩ := h.row (l.totalCount - 1) (by omega)
    rw [if_neg (by omega)] at hv
    obtain rfl := Except.ok.inj
      ((hok.pushValue_behind hc (h.last hpos) hv value).symm.trans hpush)
    refine ⟨fun p hp => ?_, fun _ => h.first hpos, fun _ => rfl, h.recycled,
      congrArg (· + 1) h.count⟩
    dsimp only at hp ⊢
    by_cases hnew : p = l.totalCount
    · refine ⟨value, ?_⟩
      rw [hnew, Function.update_of_ne (by omega), Function.update_self, if_neg (lt_irrefl _)]
    · by_cases hlast : p = l.totalCount - 1
      · refine ⟨v, ?_⟩
        rw [hlast, Function.update_self, if_pos (by omega), Nat.sub_add_cancel (by omega)]
      · obtain ⟨w, hw⟩ := h.row p (by omega)
        rw [if_pos (by omega)] at hw
        refine ⟨w, ?_⟩
        rw [Function.update_of_ne hlast, Function.update_of_ne hnew, hw, if_pos (by omega)]

theorem Pushed.removeHead_last (h : l.Pushed) (hone : l.useableCount = 1) {b : Bool}
    (hremove : l.removeHead = .ok (b, l')) : l'.Spent := by
  have htotal : l.totalCount = 1 := h.count.symm.trans hone
  obtain ⟨v, hv⟩ := h.row 0 (by omega)
  have hfirst := h.first (by omega)
  have hl := removeHead_first (by omega : l.useableCount ≠ 0) hfirst hv h.recycled
  obtain ⟨-, rfl⟩ := Prod.mk.inj (Except.ok.inj (hl.symm.trans hremove))
  exact ⟨hfirst, by rw [hone], htotal⟩

theorem Pushed.removeHead_more (h : l.Pushed) (htwo : 2 ≤ l.useableCount) {b : Bool}
    (hremove : l.removeHead = .ok (b, l')) :
    (∃ n, l'.nodes 1 = some n) ∧ ¬ l'.Reachable 1 := by
  have htotal : 2 ≤ l.totalCount := h.count ▸ htwo
  obtain ⟨v, hv⟩ := h.row 0 (by omega)
  obtain ⟨w, hw⟩ := h.row 1 (by omega)
  have hfirst := h.first (by omega)
  have hl := removeHead_first (by omega : l.useableCount ≠ 0) hfirst hv h.recycled
  obtain ⟨-, rfl⟩ := Prod.mk.inj (Except.ok.inj (hl.symm.trans hremove))
  dsimp only
  refine ⟨⟨_, by rw [Function.update_of_ne Nat.one_ne_zero, hw]⟩, ?_⟩
  rintro ⟨a, ha, hchain⟩
  -- head and recycled tail are both the first node, which nothing follows
  have hzero : a = 0 := by
    dsimp only at ha
    rw [if_neg (by omega), hfirst, or_self] at ha
    exact (Option.some.inj ha).symm
  subst hzero
  obtain hsame | ⟨q, ⟨n, hn, hnext⟩, -⟩ := hchain.cases_head
  · exact absurd hsame Nat.zero_ne_one
  · obtain rfl := Option.some.inj ((Function.update_self 0 _ l.nodes).symm.trans hn)
    cases hnext

namespace Peak
variable {s s' : Peak T}

def Kept (s : Peak T) : Prop :=
  s.list.Ok ∧ s.list.totalCount ≤ s.peak ∧ s.peak ≤ s.list.totalCount ∧
    (s.list.Pushed ∨ s.list.Spent)

theorem kept_new : (new : Peak T).Kept :=
  ⟨new_ok, le_rfl, le_rfl, Or.inl pushed_new⟩

theorem Kept.reused (h : s.Kept) : s.Reused := by
  obtain ⟨hok, hle, -, hshape⟩ := h
  refine ⟨hle, fun p n hn => ?_⟩
  have hp := hok.lt hn
  rcases hshape with hpushed | hspent
  · exact hpushed.reachable hp
  · obtain rfl : p = 0 := by
      rw [hspent.total] at hp
      omega
    exact ⟨0, Or.inr hspent.recycled, .refl⟩

theorem call_pushValue {returned : Option Bool} {value : T}
    (h : l.call (.pushValue value) = .ok (returned, l')) : l.pushValue value = .ok l' := by
  obtain ⟨l₁, hpush, hl₁⟩ := Outcome.exists_of_bind h
  obtain ⟨-, rfl⟩ := Prod.mk.inj (Except.ok.inj hl₁)
  exact hpush

theorem call_removeHead {returned : Option Bool} (h : l.call .removeHead = .ok (returned, l')) :
    ∃ b, l.removeHead = .ok (b, l') := by
  obtain ⟨⟨b, l₁⟩, hremove, hl₁⟩ := Outcome.exists_of_bind h
  obtain ⟨-, rfl⟩ := Prod.mk.inj (Except.ok.inj hl₁)
  exact ⟨b, hremove⟩

theorem Kept.pushValue (h : s.Kept) {value : T} (hs : s.Step (.pushValue value) s') :
    (s'.Reused ↔ s.list.recycledTail = none) ∧ (s.list.recycledTail = none → s'.Kept) := by
  obtain ⟨hok, hle, hge, hshape⟩ := h
  obtain ⟨⟨returned, hcall⟩, hpeak⟩ := hs
  have hpush := call_pushValue hcall
  obtain ⟨l₁, hl₁, hok', hcount, htotal, -⟩ := hok.pushValue_spec value
  obtain rfl := Except.ok.inj (hl₁.symm.trans hpush)
  rw [getCount, hcount] at hpeak
  rcases hshape with hpushed | hspent
  · have hmade := hpushed.count
    have hkept : s'.Kept :=
      ⟨hok', by omega, by omega, Or.inl (hpushed.pushValue hok hpush)⟩
    exact ⟨iff_of_true hkept.reused hpushed.recycled, fun _ => hkept⟩
  · have hne : s.list.recycledTail ≠ none := by
      rw [hspent.recycled]
      exact Option.some_ne_none 0
    refine ⟨iff_of_false (fun hreused => ?_) hne, fun hnone => absurd hnone hne⟩
    have hone := hspent.total
    have hempty := hspent.count
    have hfew := hreused.1
    omega

theorem Kept.removeHead (h : s.Kept) (hs : s.Step .removeHead s') :
    (s'.Reused ↔ s.list.getCount ≤ 1) ∧ (s.list.getCount ≤ 1 → s'.Kept) := by
  obtain ⟨hok, hle, hge, hshape⟩ := h
  obtain ⟨⟨returned, hcall⟩, hpeak⟩ := hs
  obtain ⟨b, hremove⟩ := call_removeHead hcall
  by_cases hc : s.list.useableCount = 0
  · rw [HSList.removeHead, if_pos hc] at hremove
    obtain ⟨-, hsame⟩ := Prod.mk.inj (Except.ok.inj hremove)
    rw [← hsame, getCount, hc, Nat.max_zero] at hpeak
    have hkept : s'.Kept := by
      rw [Kept, ← hsame, hpeak]
      exact ⟨hok, hle, hge, hshape⟩
    exact ⟨iff_of_true hkept.reused (hc.le.trans (Nat.zero_le 1)), fun _ => hkept⟩
  · obtain ⟨l₁, hl₁, hok', hcount, htotal, -⟩ := hok.removeHead_spec hc
    obtain ⟨-, rfl⟩ := Prod.mk.inj (Except.ok.inj (hl₁.symm.trans hremove))
    have hpushed : s.list.Pushed := hshape.resolve_right fun hspent => hc hspent.count
    have hmade := hpushed.count
    rw [getCount, hcount] at hpeak
    by_cases hone : s.list.useableCount = 1
    · have hkept : s'.Kept :=
        ⟨hok', by omega, by omega, Or.inr (hpushed.removeHead_last hone hremove)⟩
      exact ⟨iff_of_true hkept.reused hone.le, fun _ => hkept⟩
    · have htwo : ¬ s.list.getCount ≤ 1 := by
        rw [getCount]
        omega
      obtain ⟨⟨n, hn⟩, hlost⟩ := hpushed.removeHead_more (by omega) hremove
      exact ⟨iff_of_false (fun hreused => hlost (hreused.2 1 n hn)) htwo,
        fun hfew => absurd hfew htwo⟩

/-- A list reuses its nodes and loses none as long as only values are pushed, or the only one is
removed. -/
theorem reused_runs (T : Type) (cs : List (QueueCall T)) (s : Peak T) :
    Run (Keeping Reused Step) new cs s ↔ Run (Guarded Spare Step) new cs s := by
  apply Run.guarded_iff (I := Kept)
  · exact kept_new
  · intro s c s' hkept hs
    cases c with
    | pushValue value => exact hkept.pushValue hs
    | removeHead => exact hkept.removeHead hs

def next (s : Peak T) (c : QueueCall T) : Option (Peak T) :=
  (s.list.call c).toOption.map fun r => ⟨r.2, max s.peak r.2.getCount⟩

theorem step_of_next {c : QueueCall T} (h : s.next c = some s') : s.Step c s' := by
  obtain ⟨⟨returned, l⟩, hcall, rfl⟩ := Option.map_eq_some_iff.mp h
  exact ⟨⟨returned, Outcome.eq_ok_of_toOption hcall⟩, rfl⟩

/-- A value that is pushed after the only one was removed gets a node of its own. -/
theorem push_again :
    ∃ s, Run Step (new : Peak ℕ) [.pushValue 1, .removeHead, .pushValue 2] s ∧ ¬ s.Reused := by
  obtain ⟨s, hrun, hs⟩ := @Run.of_observed _ _ (Step : Peak ℕ → QueueCall ℕ → Peak ℕ → Prop) new
    (ℕ × ℕ) next (fun _ _ _ => step_of_next) [.pushValue 1, .removeHead, .pushValue 2]
    (fun s => (s.list.totalCount, s.peak)) (2, 1) (by decide +kernel)
  obtain ⟨htotal, hpeak⟩ := Prod.mk.inj hs
  refine ⟨s, hrun, fun hreused => ?_⟩
  have hfew := hreused.1
  omega

end Peak

end HsCommon.HSList
