import HsCommon.Odbc

/-!
# The statements put on callback_list_

`RemoveHead` keeps the head while the list holds more entries, so `Doing` executes
the head again in the place of the entries behind it. The order is kept exactly as
long as nothing is taken from a list of two or more entries.
-/

namespace HsCommon.HSODBC
open Transition

def Quiet (s : HSODBC) : DbAct → Prop
  | .executeQuery _ _ useIndex _ => useIndex = defaultUseIndex ∧ s.frames = []
  | .doing => True
  | .work _ => True
  | .callbackReturns => True

def QuietStep : HSODBC → DbAct → HSODBC → Prop := Guarded Quiet Step

/-- The entries passed to the driver are entries of the list, each at most once and in the order
they were queued, and all of them when the list is empty. -/
structure InOrder (s : HSODBC) : Prop where
  distinct : s.queued.Nodup
  once : s.passed.Sublist s.queued
  all : s.callbackList.getCount = 0 → s.passed = s.queued

def removes (s : HSODBC) : ℕ := s.frames.count .remove

/-- If `Doing` is at the list and a handle is free, the list is empty or holds one entry, which is
not being executed. -/
def TakesLast (s : HSODBC) (_ : DbAct) : Prop :=
  ∀ rest, s.frames = .take :: rest →
    s.callbackList.getCount = 0 ∨ (s.callbackList.getCount = 1 ∧ s.removes = 0) ∨
      handleCount ≤ s.getCanUseHandleIndex

inductive QueueStep (s : HSODBC) (e : DbAct) (s' : HSODBC) : Prop where
  | idle : TakesLast s e → s'.callbackList = s.callbackList → s'.queued = s.queued →
      s'.passed = s.passed → s'.removes = s.removes → QueueStep s e s'
  | push {q : QueryAndCallback} : TakesLast s e → s.removes = 0 → s'.removes = 0 →
      q.number = s.queued.length → s.callbackList.pushValue q = .ok s'.callbackList →
      s'.queued = s.queued ++ [(q.number, q.statement)] → s'.passed = s.passed → QueueStep s e s'
  | take {q : QueryAndCallback} {rest : List CallFrame} : s.frames = .take :: rest →
      s'.removes = s.removes + 1 → s.getCanUseHandleIndex < handleCount →
      s.callbackList.getCount ≠ 0 → s.callbackList.getHeadValue = .ok (some q) →
      s'.callbackList = s.callbackList → s'.queued = s.queued →
      s'.passed = s.passed ++ [(q.number, q.statement)] → QueueStep s e s'
  | remove {b : Bool} : TakesLast s e → s.removes = s'.removes + 1 →
      s.callbackList.removeHead = .ok (b, s'.callbackList) → s'.queued = s.queued →
      s'.passed = s.passed → QueueStep s e s'

variable {s s' : HSODBC} {e : DbAct}

theorem takesLast_of_frames (h : ∀ rest, s.frames ≠ .take :: rest) : TakesLast s e :=
  fun rest hf => absurd hf (h rest)

theorem QueueStep.of_frames {hstmt : ℕ → DataHandle} {frames : List CallFrame}
    {events : List DbEvent}
    (hguard : TakesLast s e) (hq : events.filterMap DbEvent.queuedEntry = [])
    (hp : events.filterMap DbEvent.passedEntry = []) (hf : frames.count .remove = s.removes) :
    QueueStep s e ⟨hstmt, s.callbackList, frames, s.log ++ events⟩ := by
  refine .idle hguard rfl ?_ ?_ hf
  · simp only [queued, List.filterMap_append, hq, List.append_nil]
  · simp only [passed, List.filterMap_append, hp, List.append_nil]

theorem Does.queueStep (h : Does s e s') (hq : Quiet s e) (hl : s.callbackList.Ok) :
    QueueStep s e s' := by
  cases h with
  | @execute statement callback useIndex ret _ _ h =>
    obtain ⟨rfl, hf⟩ := hq
    have hguard : TakesLast s (.executeQuery statement callback defaultUseIndex ret) :=
      takesLast_of_frames fun rest => by simp [hf]
    cases h with
    | queues _ hp =>
      refine .push hguard ?_ ?_ rfl hp ?_ ?_ <;>
        simp [removes, hf, queued, passed, DbEvent.queuedEntry, DbEvent.passedEntry]
    | starts => exact .of_frames hguard rfl rfl rfl
    | ends => exact .of_frames hguard rfl rfl (by simp [removes])
  | doing hrun =>
    refine .idle (takesLast_of_frames fun rest hf => ?_) rfl rfl rfl (by simp [removes])
    simp [programRuns, hf] at hrun
  | executed hf =>
    exact .of_frames (takesLast_of_frames fun rest => by simp [hf]) rfl rfl (by simp [removes, hf])
  | answered hf =>
    exact .idle (takesLast_of_frames fun rest => by simp [hf]) rfl rfl rfl (by simp [removes, hf])
  | pollEnd hf =>
    exact .idle (takesLast_of_frames fun rest => by simp [hf]) rfl rfl rfl (by simp [removes, hf])
  | pollIdle hf =>
    exact .idle (takesLast_of_frames fun rest => by simp [hf]) rfl rfl rfl (by simp [removes, hf])
  | @pollBusy i ret rest hf =>
    have hguard : TakesLast s (.work ret) := takesLast_of_frames fun rest => by simp [hf]
    simp only [pollHandle]
    split_ifs
    · exact .of_frames hguard rfl rfl (by simp [removes, hf])
    · exact .of_frames hguard rfl rfl (by simp [removes, hf])
    · exact .of_frames hguard rfl rfl (by simp [removes, hf])
  | takeEnd hf hend =>
    refine .idle (fun _ _ => ?_) rfl rfl rfl (by simp [removes, hf])
    exact hend.imp_right Or.inr
  | takeAgain _ hc hv =>
    obtain ⟨v, hv'⟩ := hl.getHeadValue_eq hc
    rw [hv] at hv'
    cases hv'
  | takeHead hf hc hv hi h =>
    cases h with
    | queues hge => exact absurd hi (Nat.not_lt.mpr hge)
    | starts =>
      refine .take hf ?_ hi hc hv rfl ?_ ?_ <;>
        simp [removes, hf, queued, passed, DbEvent.queuedEntry, DbEvent.passedEntry]
    | ends =>
      refine .take hf ?_ hi hc hv rfl ?_ ?_ <;>
        simp [removes, hf, queued, passed, DbEvent.queuedEntry, DbEvent.passedEntry]
  | @remove ret _ _ _ hf hr =>
    have hguard : TakesLast s (.work ret) := takesLast_of_frames fun rest => by simp [hf]
    exact .remove hguard (by simp [removes, hf]) hr rfl rfl

structure Queue (s : HSODBC) : Prop where
  list : s.callbackList.Ok
  numbered : s.queued.map Prod.fst = List.range s.queued.length
  waiting : s.removes = 0 → ∃ pending, s.queued = s.passed ++ pending ∧
    pending.length = s.callbackList.getCount ∧
    ∀ q, s.callbackList.getHeadValue = .ok (some q) →
      pending.head? = some (q.number, q.statement)
  removing : s.removes ≠ 0 → s.removes = 1 ∧ s.queued = s.passed ∧ s.callbackList.getCount = 1 ∧
    ∀ q, s.callbackList.getHeadValue = .ok (some q) → (q.number, q.statement) ∈ s.passed

theorem queue_init (cb : ℕ → HSSqlCallback) : Queue (init cb) where
  list := HSList.new_ok
  numbered := rfl
  waiting _ := ⟨[], rfl, rfl, fun _ h => by cases h⟩
  removing h := absurd rfl h

theorem numbered_push {entries : List (ℕ × String)} {q : QueryAndCallback}
    (h : entries.map Prod.fst = List.range entries.length) (hq : q.number = entries.length) :
    (entries ++ [(q.number, q.statement)]).map Prod.fst =
      List.range (entries ++ [(q.number, q.statement)]).length := by
  rw [List.map_append, h, List.length_append, List.length_singleton, List.range_succ, hq]
  rfl

theorem removed_count {l l' : HSList QueryAndCallback} {b : Bool} (h : l.Ok)
    (hc : l.getCount ≠ 0) (hr : l.removeHead = .ok (b, l')) :
    l'.getCount = l.getCount - 1 ∧ (l'.getCount ≠ 0 → l'.getHeadValue = l.getHeadValue) := by
  obtain ⟨l₁, hl₁, -, hcount, -, hhead⟩ := h.removeHead_spec hc
  rw [hr] at hl₁
  obtain ⟨-, rfl⟩ := Prod.mk.inj (Except.ok.inj hl₁)
  exact ⟨hcount, hhead⟩

theorem pushed_count {l l' : HSList QueryAndCallback} {q : QueryAndCallback} (h : l.Ok)
    (hp : l.pushValue q = .ok l') :
    l'.getCount = l.getCount + 1 ∧
      l'.getHeadValue = if l.getCount = 0 then .ok (some q) else l.getHeadValue := by
  obtain ⟨l₁, hl₁, -, hcount, -, hhead⟩ := h.pushValue_spec q
  rw [hp] at hl₁
  obtain rfl := Except.ok.inj hl₁
  exact ⟨hcount, hhead⟩

theorem Queue.step (h : Queue s) (hs : QueueStep s e s') (hguard : TakesLast s e)
    (hlist : s'.callbackList.Ok) : Queue s' := by
  cases hs with
  | idle _ hl hq hp hr =>
    refine ⟨hlist, by rw [hq]; exact h.numbered, ?_, ?_⟩
    · rw [hl, hq, hp, hr]
      exact h.waiting
    · rw [hl, hq, hp, hr]
      exact h.removing
  | push _ hrem hrem' hnum hpush hq hp =>
    obtain ⟨pending, heq, hlen, hhead⟩ := h.waiting hrem
    obtain ⟨hcount, hvalue⟩ := pushed_count h.list hpush
    refine ⟨hlist, by rw [hq]; exact numbered_push h.numbered hnum, ?_,
      fun hr => absurd hrem' hr⟩
    intro _
    refine ⟨pending ++ [(_, _)], by rw [hq, hp, heq, List.append_assoc], ?_, ?_⟩
    · rw [List.length_append, hlen, hcount, List.length_singleton]
    · intro q' hq'
      rw [hvalue] at hq'
      split_ifs at hq' with hc
      · obtain rfl := Option.some.inj (Except.ok.inj hq')
        rw [hc] at hlen
        rw [List.eq_nil_of_length_eq_zero hlen]
        rfl
      · have hfirst := hhead q' hq'
        cases pending with
        | nil => cases hfirst
        | cons x xs => exact hfirst
  | take hf hrem hi hc hv hl hq hp =>
    -- the guard leaves one entry, and that is the one passed
    obtain ⟨hone, hrem₀⟩ : s.callbackList.getCount = 1 ∧ s.removes = 0 := by
      rcases hguard _ hf with h0 | h1 | hge
      · exact absurd h0 hc
      · exact h1
      · exact absurd hi (Nat.not_lt.mpr hge)
    obtain ⟨pending, heq, hlen, hhead⟩ := h.waiting hrem₀
    have hfirst := hhead _ hv
    rw [hone] at hlen
    obtain ⟨x, rfl⟩ := List.length_eq_one_iff.mp hlen
    obtain rfl := Option.some.inj hfirst
    refine ⟨hlist, by rw [hq]; exact h.numbered, fun hr => by omega, fun _ => ⟨by omega,
      by rw [hq, hp, heq], by rw [hl, hone], ?_⟩⟩
    intro q' hq'
    rw [hl, hv] at hq'
    obtain rfl := Option.some.inj (Except.ok.inj hq')
    rw [hp]
    exact List.mem_append_right _ (List.mem_singleton_self _)
  | remove _ hrem hr hq hp =>
    obtain ⟨hone, heq, hcount, -⟩ := h.removing (by omega)
    obtain ⟨hcount', -⟩ := removed_count h.list (by omega) hr
    rw [hcount] at hcount'
    refine ⟨hlist, by rw [hq]; exact h.numbered, fun _ => ⟨[], ?_, hcount'.symm, ?_⟩,
      fun hr => absurd ?_ hr⟩
    · rw [hq, hp, heq, List.append_nil]
    · intro q hv
      rw [HSList.getHeadValue, hlist.empty hcount'] at hv
      cases hv
    · omega

theorem queued_nodup {entries : List (ℕ × String)}
    (h : entries.map Prod.fst = List.range entries.length) : entries.Nodup :=
  List.Nodup.of_map Prod.fst (h ▸ List.nodup_range)

theorem Queue.inOrder (h : Queue s) : InOrder s := by
  refine ⟨queued_nodup h.numbered, ?_, ?_⟩
  · by_cases hrem : s.removes = 0
    · obtain ⟨pending, heq, -⟩ := h.waiting hrem
      rw [heq]
      exact List.sublist_append_left _ _
    · rw [(h.removing hrem).2.1]
  · intro hc
    by_cases hrem : s.removes = 0
    · obtain ⟨pending, heq, hlen, -⟩ := h.waiting hrem
      rw [hc] at hlen
      rw [heq, List.eq_nil_of_length_eq_zero hlen, List.append_nil]
    · exact (h.removing hrem).2.1.symm

def Doomed (s : HSODBC) : Prop :=
  ¬ s.passed.Nodup ∨ ∃ q, s.callbackList.getHeadValue = .ok (some q) ∧
    (q.number, q.statement) ∈ s.passed ∧ s.removes < s.callbackList.getCount

theorem not_nodup_snoc {α : Type} {xs : List α} {x : α} (h : x ∈ xs) : ¬ (xs ++ [x]).Nodup :=
  fun hnd => (List.nodup_append.mp hnd).2.2 _ h _ (List.mem_singleton_self _) rfl

theorem Doomed.step (h : Doomed s) (hl : s.callbackList.Ok) (hs : QueueStep s e s') :
    Doomed s' := by
  rcases h with hdup | ⟨q, hq, hmem, hcount⟩
  · left
    intro hnd
    cases hs with
    | idle _ _ _ hp => exact hdup (hp ▸ hnd)
    | push _ _ _ _ _ _ hp => exact hdup (hp ▸ hnd)
    | take _ _ _ _ _ _ _ hp =>
      rw [hp] at hnd
      exact hdup (List.nodup_append.mp hnd).1
    | remove _ _ _ _ hp => exact hdup (hp ▸ hnd)
  · cases hs with
    | idle _ hlist _ hp hr =>
      exact Or.inr ⟨q, by rw [hlist, hq], by rw [hp]; exact hmem, by rw [hlist, hr]; exact hcount⟩
    | push _ _ hrem' _ hpush _ hp =>
      obtain ⟨hc, hv⟩ := pushed_count hl hpush
      have hne : s.callbackList.getCount ≠ 0 := by omega
      exact Or.inr ⟨q, by rw [hv, if_neg hne, hq], by rw [hp]; exact hmem, by omega⟩
    | take _ _ _ _ hv _ _ hp =>
      left
      rw [hq] at hv
      obtain rfl := Option.some.inj (Except.ok.inj hv)
      rw [hp]
      exact not_nodup_snoc hmem
    | remove _ hrem hr _ hp =>
      obtain ⟨hc, hv⟩ := removed_count hl (by omega) hr
      exact Or.inr ⟨q, by rw [hv (by omega), hq], by rw [hp]; exact hmem, by omega⟩

theorem QueueStep.doomed (hs : QueueStep s e s') (h : Queue s) (hguard : ¬ TakesLast s e) :
    Doomed s' := by
  cases hs with
  | idle h => exact absurd h hguard
  | push h => exact absurd h hguard
  | @take q rest hf hrem hi hc hv hl _ hp =>
    by_cases hrem₀ : s.removes = 0
    · have htwo : 2 ≤ s.callbackList.getCount := by
        by_contra hlt
        exact hguard fun _ _ => Or.inr (Or.inl ⟨by omega, hrem₀⟩)
      refine Or.inr ⟨q, by rw [hl, hv], by rw [hp]; simp, ?_⟩
      rw [hl, hrem, hrem₀]
      exact htwo
    · left
      rw [hp]
      exact not_nodup_snoc ((h.removing hrem₀).2.2.2 q hv)
  | remove h => exact absurd h hguard

theorem Doomed.not_inOrder (h : Doomed s) (hc : s.callbackList.getCount = 0) : ¬ InOrder s := by
  intro ho
  rcases h with hdup | ⟨-, -, -, hcount⟩
  · exact hdup (ho.once.nodup ho.distinct)
  · omega

variable {cb : ℕ → HSSqlCallback} {es : List DbAct}

theorem queueStep_of_quiet (h : QuietStep s e s') (hl : s.callbackList.Ok) :
    QueueStep s e s' ∧ s'.callbackList.Ok := by
  have hdoes := Step.does h.2
  exact ⟨hdoes.queueStep h.1 hl, hdoes.list_ok hl⟩

theorem queue_run (h : Run (Guarded TakesLast QuietStep) (init cb) es s) : Queue s := by
  refine h.invariant (queue_init cb) fun s e s' hq hstep => ?_
  obtain ⟨hs, hl⟩ := queueStep_of_quiet hstep.2 hq.list
  exact hq.step hs hstep.1 hl

theorem list_run (h : Run QuietStep (init cb) es s) : s.callbackList.Ok := by
  have h₀ : (init cb).callbackList.Ok := HSList.new_ok
  exact Run.invariant (P := fun s => s.callbackList.Ok) h₀
    (fun _ _ _ hl hstep => (queueStep_of_quiet hstep hl).2) h

theorem guarded_or_doomed (h : Run QuietStep (init cb) es s) :
    Run (Guarded TakesLast QuietStep) (init cb) es s ∨ Doomed s := by
  refine h.guarded_or ?_ ?_
  · intro es s e s' hrun hguard hstep
    have hq := queue_run hrun
    exact (queueStep_of_quiet hstep hq.list).1.doomed hq hguard
  · intro es s e s' hrun hdoom hstep
    have hl := list_run hrun
    exact hdoom.step hl (queueStep_of_quiet hstep hl).1

/-- The list is served in order in every run in which `Doing` takes from it single entries only, and
a run that has served the list in order when it is empty is one of these. -/
theorem served_in_order (cb : ℕ → HSSqlCallback) (es : List DbAct) (s : HSODBC) :
    (Run (Guarded TakesLast QuietStep) (init cb) es s → InOrder s) ∧
    (Run QuietStep (init cb) es s → s.callbackList.getCount = 0 →
      (InOrder s ↔ Run (Guarded TakesLast QuietStep) (init cb) es s)) := by
  refine ⟨fun h => (queue_run h).inOrder, fun h hc => ⟨fun ho => ?_, fun h => ?_⟩⟩
  · rcases guarded_or_doomed h with hrun | hdoom
    · exact hrun
    · exact absurd ho (hdoom.not_inOrder hc)
  · exact (queue_run h).inOrder

instance (s : HSODBC) (e : DbAct) : Decidable (Quiet s e) :=
  match e with
  | .executeQuery _ _ useIndex _ =>
    inferInstanceAs (Decidable (useIndex = defaultUseIndex ∧ s.frames = []))
  | .doing => .isTrue trivial
  | .work _ => .isTrue trivial
  | .callbackReturns => .isTrue trivial

def quietNext (s : HSODBC) (e : DbAct) : Option HSODBC := if Quiet s e then s.next e else none

theorem quietStep_of_next (s : HSODBC) (e : DbAct) (s' : HSODBC) (h : quietNext s e = some s') :
    QuietStep s e s' := by
  simp only [quietNext] at h
  split_ifs at h with hq
  exact ⟨hq, h⟩

def noCallback : HSSqlCallback := ⟨fun _ => 0, "", 0⟩

def query (statement : String) (ret : SqlReturn) : DbAct :=
  .executeQuery statement noCallback defaultUseIndex ret

def twoWaiting : List DbAct :=
  [query "a" .stillExecuting, query "b" .stillExecuting, query "c" .success, query "d" .success,
    .doing, .work .success, .callbackReturns, .work .success, .callbackReturns, .work .success,
    .work .success, .callbackReturns, .work .success,
    .work .success, .callbackReturns, .work .success]

theorem secondWaiting_lost :
    ∃ s, Run QuietStep (init fun _ => noCallback) twoWaiting s ∧ s.callbackList.getCount = 0 ∧
      s.queued = [(0, "c"), (1, "d")] ∧ s.passed = [(0, "c"), (0, "c")] ∧ ¬ InOrder s := by
  have hrun : (twoWaiting.foldlM quietNext (init fun _ => noCallback)).map
      (fun (s : HSODBC) => (s.callbackList.getCount, s.queued, s.passed)) =
      some (0, [(0, "c"), (1, "d")], [(0, "c"), (0, "c")]) := by
    decide +kernel
  obtain ⟨s, hs, hobs⟩ := Run.of_observed quietStep_of_next hrun
  obtain ⟨hcount, hobs⟩ := Prod.mk.inj hobs
  obtain ⟨hqueued, hpassed⟩ := Prod.mk.inj hobs
  refine ⟨s, hs, hcount, hqueued, hpassed, fun ho => ?_⟩
  have hall := ho.all hcount
  rw [hqueued, hpassed] at hall
  exact absurd hall (by decide)

end HsCommon.HSODBC
