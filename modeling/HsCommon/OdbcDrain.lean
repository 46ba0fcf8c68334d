import HsCommon.OdbcLoop
import HsCommon.OdbcHandles

/-!
# What a call of `Doing` gets done

`Doing` polls the handles and then serves the list. As long as the callbacks call
nothing it comes to an end, however the driver answers, and it stops serving only
when the list is empty or every handle is executing. If nothing it starts or polls
goes on executing, it leaves an empty list and no handle executing.
-/

namespace HsCommon.HSODBC
open Transition

variable {s s' t : HSODBC} {e : DbAct} {rest : List CallFrame} {A A' : Prop} {K k i : ℕ}

def Calm (rest : List CallFrame) (s : HSODBC) : DbAct → Prop
  | .executeQuery .. | .doing => False
  | .work _ | .callbackReturns => s.frames ≠ rest

def Answered : DbAct → Prop
  | .work ret => ret ≠ .stillExecuting
  | .executeQuery .. | .doing | .callbackReturns => True

def FreeBelow (s : HSODBC) (i : ℕ) : Prop := ∀ j < i, (s.hstmt j).doing = false

def Saturated (s : HSODBC) : Prop := ∀ i < handleCount, (s.hstmt i).doing = true

/-- Where the call is after `k` acts, of which there are at most `K`. With `A` the driver has
answered every one of them. -/
inductive DoingAt (K : ℕ) (rest : List CallFrame) (A : Prop) (k : ℕ) (s : HSODBC) : Prop where
  | ended : s.frames = rest → k ≤ K → s.callbackList.getCount = 0 ∨ s.Saturated →
      (A → s.FreeBelow handleCount) → DoingAt K rest A k s
  | poll {i : ℕ} : s.frames = .poll i :: rest → i ≤ handleCount →
      k + 2 * (handleCount - i) + 3 * s.callbackList.getCount + 2 ≤ K → (A → s.FreeBelow i) →
      DoingAt K rest A k s
  | polled {j i : ℕ} : s.frames = .polled j :: .poll i :: rest → i ≤ handleCount →
      k + 2 * (handleCount - i) + 3 * s.callbackList.getCount + 3 ≤ K → (A → s.FreeBelow i) →
      DoingAt K rest A k s
  | take : s.frames = .take :: rest → k + 3 * s.callbackList.getCount + 1 ≤ K →
      (A → s.FreeBelow handleCount) → DoingAt K rest A k s
  | executing {index : ℕ} {ret : SqlReturn} : s.frames = .executing index ret :: .remove :: rest →
      s.callbackList.getCount ≠ 0 → k + 3 * s.callbackList.getCount ≤ K →
      (A → s.FreeBelow handleCount) → DoingAt K rest A k s
  | remove : s.frames = .remove :: rest → s.callbackList.getCount ≠ 0 →
      k + 3 * s.callbackList.getCount ≤ K + 1 → (A → s.FreeBelow handleCount) →
      DoingAt K rest A k s

theorem saturated_of_full (h : handleCount ≤ s.getCanUseHandleIndex) : s.Saturated := by
  intro i hi
  by_contra hidle
  simp only [Bool.not_eq_true] at hidle
  simp only [getCanUseHandleIndex] at h
  cases hf : (List.range handleCount).find? fun i => !(s.hstmt i).doing with
  | none =>
    have := List.find?_eq_none.mp hf i (List.mem_range.mpr hi)
    simp [hidle] at this
  | some j =>
    have hj := List.mem_range.mp (List.mem_of_find?_eq_some hf)
    rw [hf, Option.getD_some] at h
    omega

theorem FreeBelow.succ (h : s.FreeBelow i) (hi : (s.hstmt i).doing = false) :
    s.FreeBelow (i + 1) := by
  intro j hj
  rcases Nat.lt_succ_iff_lt_or_eq.mp hj with hj | rfl
  · exact h j hj
  · exact hi

theorem FreeBelow.not_saturated (h : s.FreeBelow handleCount) : ¬ s.Saturated := by
  intro hall
  have hfree := h 0 (by decide)
  rw [hall 0 (by decide)] at hfree
  cases hfree

theorem Does.at_poll (h : Does s e s') (hcalm : Calm rest s e) (hf : s.frames = .poll i :: rest) :
    (handleCount ≤ i ∧ s' = { s with frames := .take :: rest }) ∨
    (i < handleCount ∧ (s.hstmt i).doing = false ∧
      s' = { s with frames := .poll (i + 1) :: rest }) ∨
    ∃ ret, e = .work ret ∧ i < handleCount ∧ s' = s.pollHandle i ret rest := by
  cases h with
  | execute => exact hcalm.elim
  | doing => exact hcalm.elim
  | executed hf' | answered hf' | takeEnd hf' | takeAgain hf' | takeHead hf' | remove hf' =>
    cases hf.symm.trans hf'
  | pollEnd hf' hi =>
    obtain ⟨hi', rfl⟩ := List.cons.inj (hf.symm.trans hf')
    cases hi'
    exact Or.inl ⟨hi, rfl⟩
  | pollIdle hf' hi hd =>
    obtain ⟨hi', rfl⟩ := List.cons.inj (hf.symm.trans hf')
    cases hi'
    exact Or.inr (Or.inl ⟨hi, hd, rfl⟩)
  | pollBusy hf' hi _ =>
    obtain ⟨hi', rfl⟩ := List.cons.inj (hf.symm.trans hf')
    cases hi'
    exact Or.inr (Or.inr ⟨_, rfl, hi, rfl⟩)

theorem Does.at_polled (h : Does s e s') (hcalm : Calm rest s e) {j : ℕ} {fs : List CallFrame}
    (hf : s.frames = .polled j :: fs) : s' = { s with frames := fs } := by
  cases h with
  | execute => exact hcalm.elim
  | doing => exact hcalm.elim
  | answered hf' =>
    obtain ⟨-, rfl⟩ := List.cons.inj (hf.symm.trans hf')
    rfl
  | executed hf' | pollEnd hf' | pollIdle hf' | pollBusy hf' | takeEnd hf' | takeAgain hf'
  | takeHead hf' | remove hf' => cases hf.symm.trans hf'

theorem Does.serves (h : Does s e s') (hcalm : Calm rest s e) (hl : s.callbackList.Ok)
    (hf : s.frames = .take :: rest) :
    (s' = { s with frames := rest } ∧ (s.callbackList.getCount = 0 ∨ s.Saturated)) ∨
    (s.callbackList.getCount ≠ 0 ∧ s'.callbackList = s.callbackList ∧
      ((s'.frames = .remove :: rest ∧ ¬ Answered e) ∨
        ∃ index ret, s'.frames = .executing index ret :: .remove :: rest ∧
          s'.hstmt = s.hstmt)) := by
  cases h with
  | execute => exact hcalm.elim
  | doing => exact hcalm.elim
  | executed hf' | answered hf' | pollEnd hf' | pollIdle hf' | pollBusy hf' | remove hf' =>
    cases hf.symm.trans hf'
  | takeEnd hf' hstop =>
    obtain ⟨-, rfl⟩ := List.cons.inj (hf.symm.trans hf')
    exact Or.inl ⟨rfl, hstop.imp id saturated_of_full⟩
  | takeAgain _ hc hv =>
    obtain ⟨v, hv'⟩ := hl.getHeadValue_eq hc
    cases hv.symm.trans hv'
  | takeHead hf' hc _ hi h =>
    obtain ⟨-, rfl⟩ := List.cons.inj (hf.symm.trans hf')
    refine Or.inr ⟨hc, ?_⟩
    cases h with
    | queues hge => exact absurd hi (Nat.not_lt.mpr hge)
    | starts _ hret => exact ⟨rfl, Or.inl ⟨rfl, fun hans => hans hret⟩⟩
    | ends => exact ⟨rfl, Or.inr ⟨_, _, rfl, rfl⟩⟩

theorem Does.keeps_handles (h : Does s e s') (hcalm : Calm rest s e)
    (hf : (∃ index ret, s.frames = .executing index ret :: .remove :: rest) ∨
      s.frames = .remove :: rest) : s'.hstmt = s.hstmt := by
  cases h with
  | execute => exact hcalm.elim
  | doing => exact hcalm.elim
  | executed => rfl
  | remove => rfl
  | answered hf' | pollEnd hf' | pollIdle hf' | pollBusy hf' | takeEnd hf' | takeAgain hf'
  | takeHead hf' =>
    rcases hf with ⟨index, ret, hf⟩ | hf <;> cases hf.symm.trans hf'

theorem pollHandle_cases (s : HSODBC) (i : ℕ) (ret : SqlReturn) (rest : List CallFrame) :
    (s.pollHandle i ret rest).callbackList = s.callbackList ∧
    ((s.pollHandle i ret rest).frames = .poll (i + 1) :: rest ∨
      (s.pollHandle i ret rest).frames = .polled i :: .poll (i + 1) :: rest) ∧
    (ret ≠ .stillExecuting → s.FreeBelow i → (s.pollHandle i ret rest).FreeBelow (i + 1)) := by
  have hfree : s.FreeBelow i → ∀ j < i + 1,
      (Function.update s.hstmt i { s.hstmt i with doing := false } j).doing = false := by
    intro h j hj
    rcases Nat.lt_succ_iff_lt_or_eq.mp hj with hj | rfl
    · rw [Function.update_of_ne hj.ne]
      exact h j hj
    · rw [Function.update_self]
  simp only [pollHandle]
  split_ifs with hret herr
  · exact ⟨rfl, Or.inl rfl, fun hne => absurd hret hne⟩
  · exact ⟨rfl, Or.inl rfl, fun _ => hfree⟩
  · exact ⟨rfl, Or.inr rfl, fun _ => hfree⟩

theorem DoingAt.step (h : DoingAt K rest A k s) (hl : s.callbackList.Ok)
    (hA : A' → A ∧ Answered e) (hcalm : Calm rest s e) (hs : Step s e s') :
    DoingAt K rest A' (k + 1) s' := by
  have hdoes := Step.does hs
  have hq : NoQueries s e := by
    cases e <;> first | exact hcalm.elim | trivial
  have hquiet : NoCalls (s, 0) e := by
    cases e <;> first | exact hcalm.elim | trivial
  cases h with
  | ended hf =>
    cases e with
    | executeQuery | doing => exact hcalm.elim
    | work | callbackReturns => exact absurd hf hcalm
  | @poll i hf hi hk hfree =>
    rcases hdoes.at_poll hcalm hf with ⟨hi', rfl⟩ | ⟨hi', hd, rfl⟩ | ⟨ret, rfl, hi', rfl⟩
    · refine .take rfl (by dsimp only; omega) fun ha j hj => hfree (hA ha).1 j (by omega)
    · exact .poll rfl hi' (by dsimp only; omega) fun ha => (hfree (hA ha).1).succ hd
    · obtain ⟨hlist, hframes | hframes, hnext⟩ := pollHandle_cases s i ret rest
      · refine .poll hframes hi' (by rw [hlist]; omega) fun ha => ?_
        exact hnext (hA ha).2 (hfree (hA ha).1)
      · refine .polled hframes hi' (by rw [hlist]; omega) fun ha => ?_
        exact hnext (hA ha).2 (hfree (hA ha).1)
  | polled hf hi hk hfree =>
    obtain rfl := hdoes.at_polled hcalm hf
    exact .poll rfl hi (by dsimp only; omega) fun ha => hfree (hA ha).1
  | take hf hk hfree =>
    rcases hdoes.serves hcalm hl hf with
      ⟨rfl, hstop⟩ | ⟨hne, hlist, ⟨hframes, hnot⟩ | ⟨index, ret, hframes, hhandles⟩⟩
    · exact .ended rfl (by omega) hstop fun ha => hfree (hA ha).1
    · exact .remove hframes (hlist ▸ hne) (by rw [hlist]; omega) fun ha => absurd (hA ha).2 hnot
    · refine .executing hframes (hlist ▸ hne) (by rw [hlist]; omega) fun ha => ?_
      rw [FreeBelow, hhandles]
      exact hfree (hA ha).1
  | executing hf hne hk hfree =>
    obtain ⟨hframes, hlist⟩ := hdoes.at_executing hq hquiet hf
    have hhandles := hdoes.keeps_handles hcalm (Or.inl ⟨_, _, hf⟩)
    refine .remove hframes (hlist ▸ hne) (by rw [hlist]; omega) fun ha => ?_
    rw [FreeBelow, hhandles]
    exact hfree (hA ha).1
  | remove hf hne hk hfree =>
    obtain ⟨hframes, hcount⟩ := hdoes.at_remove hq hl hf
    have hhandles := hdoes.keeps_handles hcalm (Or.inr hf)
    refine .take hframes (by omega) fun ha => ?_
    rw [FreeBelow, hhandles]
    exact hfree (hA ha).1

theorem DoingAt.goes_on (h : DoingAt K rest A k s) (hl : s.callbackList.Ok)
    (hrest : s.frames ≠ rest) (ret : SqlReturn) :
    ∃ s', Step s (.work ret) s' ∨ Step s .callbackReturns s' := by
  cases h with
  | ended hf => exact absurd hf hrest
  | @poll i hf =>
    obtain ⟨s', hs'⟩ : ∃ s', s.next (.work ret) = some s' := by
      simp only [next, hf]
      split_ifs <;> exact ⟨_, rfl⟩
    exact ⟨s', Or.inl hs'⟩
  | polled hf =>
    obtain ⟨s', hs'⟩ : ∃ s', s.next .callbackReturns = some s' := by
      simp only [next, hf]
      exact ⟨_, rfl⟩
    exact ⟨s', Or.inr hs'⟩
  | take hf =>
    have hloop : CalmLoop s.callbackList.getCount rest 0 s := .head hf (by omega)
    exact hloop.goes_on hl hrest ret
  | executing hf hne =>
    have hloop : CalmLoop s.callbackList.getCount rest 0 s := .executing hf hne (by omega)
    exact hloop.goes_on hl hrest ret
  | remove hf hne =>
    have hloop : CalmLoop s.callbackList.getCount rest 0 s := .remove hf hne (by omega)
    exact hloop.goes_on hl hrest ret

theorem DoingAt.bound (h : DoingAt K rest A k s) : k ≤ K := by
  cases h with
  | ended _ hk => exact hk
  | poll _ _ hk => omega
  | polled _ _ hk => omega
  | take _ hk => omega
  | executing _ _ hk => omega
  | remove _ hne hk => omega

theorem DoingAt.result (h : DoingAt K rest A k s) (hf : s.frames = rest) :
    (s.callbackList.getCount = 0 ∨ s.Saturated) ∧ (A → s.FreeBelow handleCount) := by
  have hlen := congrArg List.length hf
  cases h with
  | ended _ _ hstop hfree => exact ⟨hstop, hfree⟩
  | poll hf' | polled hf' | take hf' | executing hf' | remove hf' =>
    rw [hf'] at hlen
    simp only [List.length_cons] at hlen
    omega

theorem doing_run {s₁ : HSODBC} (hl : s₁.callbackList.Ok) (hf : s₁.frames = .poll 0 :: rest)
    {es : List DbAct} (h : Run (Guarded (Calm rest) Step) s₁ es t) :
    t.callbackList.Ok ∧ DoingAt (3 * s₁.callbackList.getCount + 6) rest
      (∀ e ∈ es, Answered e) es.length t := by
  refine Run.history (P := fun es t => t.callbackList.Ok ∧
    DoingAt (3 * s₁.callbackList.getCount + 6) rest (∀ e ∈ es, Answered e) es.length t) ?_ ?_ h
  · have hbound : 0 + 2 * (handleCount - 0) + 3 * s₁.callbackList.getCount + 2 ≤
        3 * s₁.callbackList.getCount + 6 := by
      simp only [handleCount]
      omega
    exact ⟨hl, .poll hf (Nat.zero_le _) hbound fun _ j hj => absurd hj (Nat.not_lt_zero j)⟩
  · intro es t e t' hI hstep
    obtain ⟨hcalm, hs⟩ := hstep
    refine ⟨(Step.does hs).list_ok hI.1, ?_⟩
    rw [List.length_append, List.length_singleton]
    refine hI.2.step hI.1 (fun ha => ?_) hcalm hs
    rw [List.forall_mem_append, List.forall_mem_singleton] at ha
    exact ha

/-- A call of `Doing` whose callbacks call nothing ends after three acts for each entry of the list
and six more, whatever the driver answers. It leaves the list empty or every handle executing, and
an empty list and no handle executing if the driver answered every time. -/
theorem doing_drains (cb : ℕ → HSSqlCallback) (es₀ : List DbAct) (s : HSODBC)
    (h : Run Step (init cb) es₀ s) (hrun : s.programRuns = true) :
    ∃ s₁, Step s .doing s₁ ∧ ∀ es t, Run (Guarded (Calm s.frames) Step) s₁ es t →
      es.length ≤ 3 * s.callbackList.getCount + 6 ∧
      (t.frames ≠ s.frames → ∀ ret, ∃ t', Step t (.work ret) t' ∨ Step t .callbackReturns t') ∧
      (t.frames = s.frames → (t.callbackList.getCount = 0 ∨ t.Saturated) ∧
        ((∀ e ∈ es, Answered e) →
          t.callbackList.getCount = 0 ∧ t.FreeBelow handleCount)) := by
  have hl := list_ok_run h
  refine ⟨{ s with frames := .poll 0 :: s.frames }, by simp only [Step, next, hrun, if_true],
    fun es t ht => ?_⟩
  obtain ⟨hlt, hat⟩ := @doing_run t s.frames { s with frames := .poll 0 :: s.frames } hl rfl es ht
  refine ⟨hat.bound, fun hne ret => hat.goes_on hlt hne ret, fun hf => ?_⟩
  obtain ⟨hstop, hfree⟩ := hat.result hf
  exact ⟨hstop, fun ha => ⟨hstop.resolve_right (hfree ha).not_saturated, hfree ha⟩⟩

theorem doing_drains_one :
    ∃ s s₁, Run Step (init fun _ => noCallback) (oneWaiting.take 3) s ∧
      s.callbackList.getCount = 1 ∧ Step s .doing s₁ ∧
      ∀ es t, Run (Guarded (Calm s.frames) Step) s₁ es t → es.length ≤ 9 := by
  have hrun : ((oneWaiting.take 3).foldlM quietNext (init fun _ => noCallback)).map
      (fun (s : HSODBC) => (s.callbackList.getCount, s.frames)) = some (1, []) := by
    decide +kernel
  obtain ⟨s, hs, hobs⟩ := Run.of_observed quietStep_of_next hrun
  obtain ⟨hcount, hframes⟩ := Prod.mk.inj hobs
  have hs' : Run Step (init fun _ => noCallback) (oneWaiting.take 3) s :=
    (hs.mono noQueries_of_quiet).of_guarded
  obtain ⟨s₁, hdoing, hall⟩ := doing_drains (fun _ => noCallback) _ s hs'
    (by rw [programRuns, hframes])
  refine ⟨s, s₁, hs', hcount, hdoing, fun es t ht => ?_⟩
  have hlen := (hall es t ht).1
  rwa [hcount] at hlen

end HsCommon.HSODBC
