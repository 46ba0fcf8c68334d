import HsCommon.Define

/-!
# hs_list.hpp

Nodes are numbered in the order they are made. `RemoveHead` leaves `head_` where
it is until the count is down to 0, so the list keeps answering with the value
that was pushed first since it was last empty.
-/

namespace HsCommon

structure HSListNode (T : Type) where
  value : T
  next : Option ℕ

structure HSList (T : Type) where
  nodes : ℕ → Option (HSListNode T)
  head : Option ℕ
  tail : Option ℕ
  recycledTail : Option ℕ
  useableCount : ℕ
  totalCount : ℕ

namespace HSList
variable {T : Type}

def new : HSList T := ⟨fun _ => none, none, none, none, 0, 0⟩

def deref (l : HSList T) : Option ℕ → Except Fault (ℕ × HSListNode T)
  | none => .error .nullPointer
  | some p =>
    match l.nodes p with
    | none => .error .nullPointer
    | some n => .ok (p, n)

def setNode (l : HSList T) (p : ℕ) (n : HSListNode T) : HSList T :=
  { l with nodes := Function.update l.nodes p (some n) }

def setNext (l : HSList T) (p next : Option ℕ) : Except Fault (HSList T) := do
  let (p, n) ← l.deref p
  return l.setNode p { n with next := next }

def getCount (l : HSList T) : ℕ := l.useableCount

def getHeadValue (l : HSList T) : Except Fault (Option T) :=
  match l.head with
  | none => .ok none
  | some p => do
    let (_, n) ← l.deref (some p)
    return some n.value

def getTailNextValue (l : HSList T) : Except Fault (Option ℕ) :=
  match l.tail with
  | none => .ok none
  | some p => do
    let (_, n) ← l.deref (some p)
    return n.next

def pushValue (l : HSList T) (value : T) : Except Fault (HSList T) := do
  match ← l.getTailNextValue with
  | none =>
    let node := l.totalCount
    let l := l.setNode node ⟨value, none⟩
    let l ← if l.useableCount = 0 then pure { l with head := some node }
      else l.setNext l.tail (some node)
    return { l with
      tail := some node
      totalCount := l.totalCount + 1
      useableCount := l.useableCount + 1 }
  | some p =>
    let (p, n) ← l.deref (some p)
    let l := l.setNode p { n with value := value }
    return { l with useableCount := l.useableCount + 1 }

/-- The next node of the head is read into `new_head`, which nothing uses. -/
def moveHead2Tail (l : HSList T) : Except Fault (HSList T) := do
  if l.useableCount = 0 then
    return l
  let l ← l.setNext l.head none
  let l ← match l.recycledTail with
    | none => pure { l with recycledTail := l.head }
    | some p => l.setNext (some p) l.head
  let useableCount := l.useableCount - 1
  return { l with
    useableCount := useableCount
    head := if useableCount = 0 then none else l.head }

def removeHead (l : HSList T) : Except Fault (Bool × HSList T) := do
  if l.useableCount = 0 then
    return (false, l)
  return (true, ← l.moveHead2Tail)

/-- No node follows the tail, so no node is ever used again. -/
structure Ok (l : HSList T) : Prop where
  fresh : ∀ p, l.totalCount ≤ p → l.nodes p = none
  empty : l.useableCount = 0 → l.head = none
  head : l.useableCount ≠ 0 → ∃ p n, l.head = some p ∧ l.nodes p = some n
  tail : ∀ p, l.tail = some p → ∃ v, l.nodes p = some ⟨v, none⟩
  held : l.useableCount ≠ 0 → ∃ p, l.tail = some p
  apart : 2 ≤ l.useableCount → l.tail ≠ l.head
  recycled : ∀ p, l.recycledTail = some p → ∃ n, l.nodes p = some n
  unused : l.useableCount ≠ 0 → ∀ p, l.recycledTail = some p → l.tail ≠ some p

theorem new_ok : (new : HSList T).Ok where
  fresh _ _ := rfl
  empty _ := rfl
  head h := absurd rfl h
  tail _ h := by cases h
  held h := absurd rfl h
  apart h := by cases h
  recycled _ h := by cases h
  unused h := absurd rfl h

variable {l : HSList T}

theorem deref_some {p : ℕ} {n : HSListNode T} (h : l.nodes p = some n) :
    l.deref (some p) = .ok (p, n) := by
  simp only [deref, h]

theorem setNext_some {p : ℕ} {n : HSListNode T} (h : l.nodes p = some n) (next : Option ℕ) :
    l.setNext (some p) next = .ok (l.setNode p { n with next := next }) := by
  simp only [setNext, deref_some h]
  rfl

theorem getHeadValue_some {p : ℕ} {n : HSListNode T} (hp : l.head = some p)
    (hn : l.nodes p = some n) : l.getHeadValue = .ok (some n.value) := by
  simp only [getHeadValue, hp, deref_some hn]
  rfl

theorem Ok.getTailNextValue_eq (h : l.Ok) : l.getTailNextValue = .ok none := by
  cases ht : l.tail with
  | none => simp only [getTailNextValue, ht]
  | some p =>
    obtain ⟨v, hv⟩ := h.tail p ht
    simp only [getTailNextValue, ht, deref_some hv]
    rfl

theorem Ok.getHeadValue_eq (h : l.Ok) (hc : l.useableCount ≠ 0) :
    ∃ v, l.getHeadValue = .ok (some v) := by
  obtain ⟨p, n, hp, hn⟩ := h.head hc
  exact ⟨n.value, getHeadValue_some hp hn⟩

theorem Ok.pushValue_empty (h : l.Ok) (hc : l.useableCount = 0) (value : T) :
    l.pushValue value = .ok ⟨Function.update l.nodes l.totalCount (some ⟨value, none⟩),
      some l.totalCount, some l.totalCount, l.recycledTail, l.useableCount + 1,
      l.totalCount + 1⟩ := by
  simp only [pushValue, h.getTailNextValue_eq, setNode, hc, if_true, bind, Except.bind, pure,
    Except.pure]

theorem Ok.pushValue_behind (h : l.Ok) (hc : l.useableCount ≠ 0) {t : ℕ} {v : T}
    (ht : l.tail = some t) (hv : l.nodes t = some ⟨v, none⟩) (value : T) :
    l.pushValue value = .ok ⟨Function.update
      (Function.update l.nodes l.totalCount (some ⟨value, none⟩)) t
        (some ⟨v, some l.totalCount⟩), l.head, some l.totalCount, l.recycledTail,
      l.useableCount + 1, l.totalCount + 1⟩ := by
  have htn : t ≠ l.totalCount := by
    rintro rfl
    rw [h.fresh _ le_rfl] at hv
    cases hv
  have hv' : (l.setNode l.totalCount ⟨value, none⟩).nodes t = some ⟨v, none⟩ := by
    simp only [setNode]
    rw [Function.update_of_ne htn, hv]
  have hcount : (l.setNode l.totalCount ⟨value, none⟩).useableCount ≠ 0 := hc
  have htail : (l.setNode l.totalCount ⟨value, none⟩).tail = some t := ht
  simp only [pushValue, h.getTailNextValue_eq, if_neg hcount, htail, setNext_some hv', bind,
    Except.bind, pure, Except.pure]
  rfl

theorem removeHead_first (hc : l.useableCount ≠ 0) {q : ℕ} {m : HSListNode T}
    (hq : l.head = some q) (hm : l.nodes q = some m) (hr : l.recycledTail = none) :
    l.removeHead = .ok (true, ⟨Function.update l.nodes q (some { m with next := none }),
      if l.useableCount - 1 = 0 then none else l.head, l.tail, l.head, l.useableCount - 1,
      l.totalCount⟩) := by
  simp only [removeHead, if_neg hc, moveHead2Tail, hq, setNext_some hm, setNode, hr, bind,
    Except.bind, pure, Except.pure]

theorem removeHead_again (hc : l.useableCount ≠ 0) {q r : ℕ} {m n : HSListNode T}
    (hq : l.head = some q) (hm : l.nodes q = some m) (hr : l.recycledTail = some r)
    (hn : Function.update l.nodes q (some { m with next := none }) r = some n) :
    l.removeHead = .ok (true, ⟨Function.update
      (Function.update l.nodes q (some { m with next := none })) r (some { n with next := some q }),
      if l.useableCount - 1 = 0 then none else l.head, l.tail, l.recycledTail,
      l.useableCount - 1, l.totalCount⟩) := by
  have hlinked := @setNext_some _ (l.setNode q { m with next := none }) r n hn (some q)
  have hrec : (l.setNode q { m with next := none }).recycledTail = some r := hr
  have hhead : (l.setNode q { m with next := none }).head = some q := hq
  simp only [removeHead, if_neg hc, moveHead2Tail, hq, setNext_some hm, hrec, hhead, hlinked,
    bind, Except.bind, pure, Except.pure]
  simp only [setNode, hr, hq]

def Keeps (nodes nodes' : ℕ → Option (HSListNode T)) : Prop :=
  ∀ p n, nodes p = some n → ∃ n', n'.value = n.value ∧ nodes' p = some n'

theorem Keeps.refl (nodes : ℕ → Option (HSListNode T)) : Keeps nodes nodes :=
  fun _ n hn => ⟨n, rfl, hn⟩

theorem Keeps.trans {a b c : ℕ → Option (HSListNode T)} (h : Keeps a b) (h' : Keeps b c) :
    Keeps a c := by
  intro p n hn
  obtain ⟨n₁, hv, hn₁⟩ := h p n hn
  obtain ⟨n₂, hv', hn₂⟩ := h' p n₁ hn₁
  exact ⟨n₂, hv'.trans hv, hn₂⟩

theorem keeps_next {nodes : ℕ → Option (HSListNode T)} {p : ℕ} {n : HSListNode T}
    (h : nodes p = some n) (next : Option ℕ) :
    Keeps nodes (Function.update nodes p (some { n with next := next })) := by
  intro q m hm
  by_cases hq : q = p
  · subst hq
    obtain rfl := Option.some.inj (h.symm.trans hm)
    exact ⟨{ n with next := next }, rfl, Function.update_self _ _ _⟩
  · exact ⟨m, rfl, by rw [Function.update_of_ne hq, hm]⟩

theorem Ok.lt (h : l.Ok) {p : ℕ} {n : HSListNode T} (hn : l.nodes p = some n) :
    p < l.totalCount := by
  by_contra hp
  rw [h.fresh p (Nat.le_of_not_lt hp)] at hn
  cases hn

theorem Ok.keeps_new (h : l.Ok) (n : HSListNode T) :
    Keeps l.nodes (Function.update l.nodes l.totalCount (some n)) := by
  intro p m hm
  exact ⟨m, rfl, by rw [Function.update_of_ne (h.lt hm).ne, hm]⟩

theorem Ok.pushed (h : l.Ok) {nodes : ℕ → Option (HSListNode T)} {head : Option ℕ} {value : T}
    (hkeeps : Keeps l.nodes nodes) (hnew : nodes l.totalCount = some ⟨value, none⟩)
    (hfresh : ∀ p, l.totalCount < p → nodes p = none)
    (hhead : head = if l.useableCount = 0 then some l.totalCount else l.head) :
    let l' : HSList T := ⟨nodes, head, some l.totalCount, l.recycledTail, l.useableCount + 1,
      l.totalCount + 1⟩
    l'.Ok ∧ l'.getHeadValue =
      if l.useableCount = 0 then .ok (some value) else l.getHeadValue := by
  intro l'
  have hfirst : ∃ p n, head = some p ∧ nodes p = some n ∧
      .ok (some n.value) = if l.useableCount = 0 then .ok (some value) else l.getHeadValue := by
    by_cases hc : l.useableCount = 0
    · rw [if_pos hc] at hhead
      exact ⟨l.totalCount, _, hhead, hnew, by rw [if_pos hc]⟩
    · rw [if_neg hc] at hhead
      obtain ⟨q, m, hq, hm⟩ := h.head hc
      obtain ⟨m', hv, hm'⟩ := hkeeps q m hm
      exact ⟨q, m', hhead.trans hq, hm', by rw [if_neg hc, getHeadValue_some hq hm, hv]⟩
  obtain ⟨q, m, hq, hm, hvalue⟩ := hfirst
  refine ⟨⟨hfresh, fun h0 => ?_, fun _ => ⟨q, m, hq, hm⟩, ?_, fun _ => ⟨_, rfl⟩, ?_, ?_, ?_⟩, ?_⟩
  · cases h0
  · intro p hp
    obtain rfl := Option.some.inj hp
    exact ⟨value, hnew⟩
  · intro h2 heq
    have hc : l.useableCount ≠ 0 := Nat.pos_iff_ne_zero.mp (Nat.le_of_succ_le_succ h2)
    obtain ⟨r, n, hr, hn⟩ := h.head hc
    rw [if_neg hc, hr] at hhead
    obtain rfl := Option.some.inj (hhead.symm.trans heq.symm)
    exact absurd (h.lt hn) (lt_irrefl _)
  · intro p hp
    obtain ⟨n, hn⟩ := h.recycled p hp
    obtain ⟨n', -, hn'⟩ := hkeeps p n hn
    exact ⟨n', hn'⟩
  · intro _ p hp heq
    obtain ⟨n, hn⟩ := h.recycled p hp
    obtain rfl := Option.some.inj heq
    exact absurd (h.lt hn) (lt_irrefl _)
  · rw [← hvalue]
    exact getHeadValue_some hq hm

theorem Ok.pushValue_spec (h : l.Ok) (value : T) :
    ∃ l', l.pushValue value = .ok l' ∧ l'.Ok ∧ l'.useableCount = l.useableCount + 1 ∧
      l'.totalCount = l.totalCount + 1 ∧
      l'.getHeadValue = if l.useableCount = 0 then .ok (some value) else l.getHeadValue := by
  by_cases hc : l.useableCount = 0
  · obtain ⟨hok, hval⟩ := @Ok.pushed _ _ h _ (some l.totalCount) value
      (h.keeps_new ⟨value, none⟩) (Function.update_self _ _ _) (fun p hp => by
        rw [Function.update_of_ne hp.ne', h.fresh p hp.le]) (by rw [if_pos hc])
    exact ⟨_, h.pushValue_empty hc value, hok, rfl, rfl, hval⟩
  · obtain ⟨t, ht⟩ := h.held hc
    obtain ⟨v, hv⟩ := h.tail t ht
    have htn : t ≠ l.totalCount := (h.lt hv).ne
    have hv' : (l.setNode l.totalCount ⟨value, none⟩).nodes t = some ⟨v, none⟩ := by
      simp only [setNode]
      rw [Function.update_of_ne htn, hv]
    have hkeeps := (h.keeps_new ⟨value, none⟩).trans (keeps_next hv' (some l.totalCount))
    obtain ⟨hok, hval⟩ := @Ok.pushed _ _ h _ l.head value hkeeps (by
        rw [Function.update_of_ne htn.symm]
        exact Function.update_self _ _ _) (fun p hp => by
        have hpt : p ≠ t := ((h.lt hv).trans hp).ne'
        rw [Function.update_of_ne hpt]
        exact (Function.update_of_ne hp.ne' _ _).trans (h.fresh p hp.le)) (by rw [if_neg hc])
    exact ⟨_, h.pushValue_behind hc ht hv value, hok, rfl, rfl, hval⟩

theorem Ok.removed (h : l.Ok) (hc : l.useableCount ≠ 0)
    {nodes : ℕ → Option (HSListNode T)} {head recycledTail : Option ℕ}
    (hkeeps : Keeps l.nodes nodes) (hfresh : ∀ p, l.totalCount ≤ p → nodes p = none)
    (htail : ∀ p, l.tail = some p → ∃ v, nodes p = some ⟨v, none⟩)
    (hhead : head = if l.useableCount - 1 = 0 then none else l.head)
    (hrecycled : recycledTail = l.recycledTail.or l.head) :
    let l' : HSList T := ⟨nodes, head, l.tail, recycledTail, l.useableCount - 1, l.totalCount⟩
    l'.Ok ∧ (l'.useableCount ≠ 0 → l'.getHeadValue = l.getHeadValue) := by
  intro l'
  obtain ⟨q, m, hq, hm⟩ := h.head hc
  obtain ⟨m', hv, hm'⟩ := hkeeps q m hm
  have hstay : l.useableCount - 1 ≠ 0 → head = some q := by
    intro hc'
    rw [hhead, if_neg hc', hq]
  have horigin : ∀ p, recycledTail = some p →
      l.recycledTail = some p ∨ l.recycledTail = none ∧ l.head = some p := by
    intro p hp
    rw [hrecycled] at hp
    cases hr : l.recycledTail with
    | none => exact Or.inr ⟨rfl, by rwa [hr] at hp⟩
    | some r => exact Or.inl (by rwa [hr] at hp)
  refine ⟨⟨hfresh, ?_, ?_, htail, fun _ => h.held hc, ?_, ?_, ?_⟩, ?_⟩
  · intro h0
    exact hhead.trans (if_pos h0)
  · intro hc'
    exact ⟨q, m', hstay hc', hm'⟩
  · intro h2 heq
    have h2' : 2 ≤ l.useableCount := le_trans h2 (Nat.sub_le _ _)
    have hc' : l.useableCount - 1 ≠ 0 := Nat.pos_iff_ne_zero.mp (lt_of_lt_of_le Nat.two_pos h2)
    exact h.apart h2' (heq.trans ((hstay hc').trans hq.symm))
  · intro p hp
    rcases horigin p hp with hp' | ⟨-, hp'⟩
    · obtain ⟨n, hn⟩ := h.recycled p hp'
      obtain ⟨n', -, hn'⟩ := hkeeps p n hn
      exact ⟨n', hn'⟩
    · obtain rfl := Option.some.inj (hq.symm.trans hp')
      exact ⟨m', hm'⟩
  · intro hc' p hp heq
    have hc₁ : l.useableCount - 1 ≠ 0 := hc'
    rcases horigin p hp with hp' | ⟨-, hp'⟩
    · exact h.unused hc p hp' heq
    · exact h.apart (by omega) (Eq.trans heq hp'.symm)
  · intro hc'
    rw [getHeadValue_some hq hm, ← hv]
    exact getHeadValue_some (hstay hc') hm'

theorem Ok.removeHead_spec (h : l.Ok) (hc : l.useableCount ≠ 0) :
    ∃ l', l.removeHead = .ok (true, l') ∧ l'.Ok ∧ l'.useableCount = l.useableCount - 1 ∧
      l'.totalCount = l.totalCount ∧
      (l'.useableCount ≠ 0 → l'.getHeadValue = l.getHeadValue) := by
  obtain ⟨q, m, hq, hm⟩ := h.head hc
  have hcut := keeps_next hm none
  have htail : ∀ p, l.tail = some p → ∃ v,
      Function.update l.nodes q (some { m with next := none }) p = some ⟨v, none⟩ := by
    intro p hp
    obtain ⟨v, hv⟩ := h.tail p hp
    by_cases hpq : p = q
    · exact ⟨m.value, by rw [hpq, Function.update_self]⟩
    · exact ⟨v, by rw [Function.update_of_ne hpq, hv]⟩
  have hfresh : ∀ p, l.totalCount ≤ p →
      Function.update l.nodes q (some { m with next := none }) p = none := by
    intro p hp
    rw [Function.update_of_ne ((h.lt hm).trans_le hp).ne', h.fresh p hp]
  cases hr : l.recycledTail with
  | none =>
    have hrecycled : l.head = l.recycledTail.or l.head := by rw [hr, Option.none_or]
    obtain ⟨hok, hval⟩ := h.removed hc hcut hfresh htail rfl hrecycled
    exact ⟨_, removeHead_first hc hq hm hr, hok, rfl, rfl, hval⟩
  | some r =>
    obtain ⟨n, hn⟩ := h.recycled r hr
    obtain ⟨n', -, hn'⟩ := hcut r n hn
    have hlink := keeps_next hn' (some q)
    obtain ⟨hok, hval⟩ := h.removed hc (hcut.trans hlink) (fun p hp => by
        rw [Function.update_of_ne ((h.lt hn).trans_le hp).ne']
        exact hfresh p hp) (fun p hp => by
        have hpr : p ≠ r := by
          rintro rfl
          exact h.unused hc p hr hp
        rw [Function.update_of_ne hpr]
        exact htail p hp) rfl (show l.recycledTail = l.recycledTail.or l.head by rw [hr]; rfl)
    exact ⟨_, removeHead_again hc hq hm hr hn', hok, rfl, rfl, hval⟩

theorem Ok.pushValue_keeps {l' : HSList T} (h : l.Ok) {value : T}
    (hpush : l.pushValue value = .ok l') : Keeps l.nodes l'.nodes := by
  have hnew := h.keeps_new ⟨value, none⟩
  by_cases hc : l.useableCount = 0
  · obtain rfl := Except.ok.inj ((h.pushValue_empty hc value).symm.trans hpush)
    exact hnew
  · obtain ⟨t, ht⟩ := h.held hc
    obtain ⟨v, hv⟩ := h.tail t ht
    obtain rfl := Except.ok.inj ((h.pushValue_behind hc ht hv value).symm.trans hpush)
    have hv' : Function.update l.nodes l.totalCount (some ⟨value, none⟩) t = some ⟨v, none⟩ := by
      rw [Function.update_of_ne (h.lt hv).ne, hv]
    exact hnew.trans (keeps_next hv' (some l.totalCount))

theorem Ok.removeHead_keeps {l' : HSList T} (h : l.Ok) {b : Bool}
    (hremove : l.removeHead = .ok (b, l')) : Keeps l.nodes l'.nodes := by
  by_cases hc : l.useableCount = 0
  · rw [removeHead, if_pos hc] at hremove
    obtain ⟨-, rfl⟩ := Prod.mk.inj (Except.ok.inj hremove)
    exact .refl _
  · obtain ⟨q, m, hq, hm⟩ := h.head hc
    have hcut := keeps_next hm none
    cases hr : l.recycledTail with
    | none =>
      have hl := removeHead_first hc hq hm hr
      obtain ⟨-, rfl⟩ := Prod.mk.inj (Except.ok.inj (hl.symm.trans hremove))
      exact hcut
    | some r =>
      obtain ⟨n, hn⟩ := h.recycled r hr
      obtain ⟨n', -, hn'⟩ := hcut r n hn
      have hl := removeHead_again hc hq hm hr hn'
      obtain ⟨-, rfl⟩ := Prod.mk.inj (Except.ok.inj (hl.symm.trans hremove))
      exact hcut.trans (keeps_next hn' (some q))

end HSList

end HsCommon
