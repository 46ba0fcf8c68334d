import HsCommon.OdbcQueue

/-!
# The loop at the end of `Doing`

The loop goes on while `callback_list_` has entries, and gives up only when no handle is free. It
makes progress because a list with entries has a head. A callback that is run inside may call
`Doing` again, whose loop takes from the same list.
-/

namespace HsCommon.HSODBC
open Transition

def NoQueries (s : HSODBC) : DbAct → Prop
  | .executeQuery .. => s.frames = []
  | .doing | .work _ | .callbackReturns => True

def NoCalls (_ : HSODBC × ℕ) : DbAct → Prop
  | .executeQuery .. | .doing => False
  | .work _ | .callbackReturns => True

def Enters (rest : List CallFrame) (s : HSODBC) : Prop :=
  s.frames = .take :: rest ∧ s.callbackList.getCount ≠ 0

instance (rest : List CallFrame) (s : HSODBC) : Decidable (Enters rest s) :=
  inferInstanceAs (Decidable (s.frames = .take :: rest ∧ s.callbackList.getCount ≠ 0))

/-- An act while the loop above `rest` is in progress, which counts how often its body is
entered. -/
def LoopStep (rest : List CallFrame) (s : HSODBC × ℕ) (e : DbAct) (s' : HSODBC × ℕ) : Prop :=
  s.1.frames ≠ rest ∧ Guarded NoQueries Step s.1 e s'.1 ∧
    s'.2 = if Enters rest s.1 then s.2 + 1 else s.2

variable {s s' : HSODBC} {e : DbAct} {rest : List CallFrame}

theorem removed_getCount {l l' : HSList QueryAndCallback} {b : Bool} (h : l.Ok)
    (hr : l.removeHead = .ok (b, l')) : l'.getCount = l.getCount - 1 := by
  by_cases hc : l.useableCount = 0
  · rw [HSList.removeHead, if_pos hc] at hr
    obtain ⟨-, rfl⟩ := Prod.mk.inj (Except.ok.inj hr)
    rw [HSList.getCount, hc]
  · exact (removed_count h hc hr).1

theorem Executes.on_handle {number : Option ℕ} {statement : String} {callback : HSSqlCallback}
    {index : ℕ} {ret : SqlReturn} (h : Executes number statement callback index ret s s')
    (hi : index < handleCount) : s'.callbackList = s.callbackList ∧
      (s'.frames = s.frames ∨ s'.frames = .executing index ret :: s.frames) := by
  cases h with
  | queues hge => exact absurd hi (Nat.not_lt.mpr hge)
  | starts => exact ⟨rfl, Or.inl rfl⟩
  | ends => exact ⟨rfl, Or.inr rfl⟩

theorem Does.below (h : Does s e s') (hq : NoQueries s e) (hl : s.callbackList.Ok)
    {f : CallFrame} {fs : List CallFrame} (hf : s.frames = f :: fs) :
    (∃ above, s'.frames = above ++ fs) ∧
      s'.callbackList.getCount ≤ s.callbackList.getCount := by
  cases h with
  | execute => cases hf.symm.trans hq
  | doing => exact ⟨⟨[.poll 0, f], congrArg _ hf⟩, le_rfl⟩
  | executed hf' =>
    obtain ⟨-, rfl⟩ := List.cons.inj (hf.symm.trans hf')
    exact ⟨⟨[], rfl⟩, le_rfl⟩
  | answered hf' =>
    obtain ⟨-, rfl⟩ := List.cons.inj (hf.symm.trans hf')
    exact ⟨⟨[], rfl⟩, le_rfl⟩
  | pollEnd hf' =>
    obtain ⟨-, rfl⟩ := List.cons.inj (hf.symm.trans hf')
    exact ⟨⟨[.take], rfl⟩, le_rfl⟩
  | @pollIdle i _ _ hf' =>
    obtain ⟨-, rfl⟩ := List.cons.inj (hf.symm.trans hf')
    exact ⟨⟨[.poll (i + 1)], rfl⟩, le_rfl⟩
  | @pollBusy i ret _ hf' =>
    obtain ⟨-, rfl⟩ := List.cons.inj (hf.symm.trans hf')
    simp only [pollHandle]
    split_ifs
    · exact ⟨⟨[.poll (i + 1)], rfl⟩, le_rfl⟩
    · exact ⟨⟨[.poll (i + 1)], rfl⟩, le_rfl⟩
    · exact ⟨⟨[.polled i, .poll (i + 1)], rfl⟩, le_rfl⟩
  | takeEnd hf' =>
    obtain ⟨-, rfl⟩ := List.cons.inj (hf.symm.trans hf')
    exact ⟨⟨[], rfl⟩, le_rfl⟩
  | takeAgain hf' =>
    obtain ⟨-, rfl⟩ := List.cons.inj (hf.symm.trans hf')
    exact ⟨⟨[.take], rfl⟩, le_rfl⟩
  | @takeHead ret _ qc _ hf' _ _ hi h =>
    obtain ⟨-, rfl⟩ := List.cons.inj (hf.symm.trans hf')
    obtain ⟨hlist, hframes | hframes⟩ := h.on_handle hi
    · exact ⟨⟨[.remove], hframes⟩, hlist ▸ le_rfl⟩
    · exact ⟨⟨[.executing _ ret, .remove], hframes⟩, hlist ▸ le_rfl⟩
  | remove hf' hr =>
    obtain ⟨-, rfl⟩ := List.cons.inj (hf.symm.trans hf')
    exact ⟨⟨[.take], rfl⟩, (removed_getCount hl hr).le.trans (Nat.sub_le _ _)⟩

theorem Does.at_take (h : Does s e s') (hq : NoQueries s e) (hl : s.callbackList.Ok)
    (hf : s.frames = .take :: rest) :
    (s'.frames = rest ∨ s.callbackList.getCount ≠ 0 ∧
      (s'.frames = .remove :: rest ∨
        ∃ index ret, s'.frames = .executing index ret :: .remove :: rest)) ∧
      s'.callbackList = s.callbackList := by
  cases h with
  | execute => cases hf.symm.trans hq
  | doing hrun =>
    rw [programRuns, hf] at hrun
    cases hrun
  | executed hf' | answered hf' | pollEnd hf' | pollIdle hf' | pollBusy hf' =>
    cases hf.symm.trans hf'
  | takeEnd hf' =>
    obtain ⟨-, rfl⟩ := List.cons.inj (hf.symm.trans hf')
    exact ⟨Or.inl rfl, rfl⟩
  | takeAgain _ hc hv =>
    obtain ⟨v, hv'⟩ := hl.getHeadValue_eq hc
    cases hv.symm.trans hv'
  | takeHead hf' hc _ hi h =>
    obtain ⟨-, rfl⟩ := List.cons.inj (hf.symm.trans hf')
    obtain ⟨hlist, hframes | hframes⟩ := h.on_handle hi
    · exact ⟨Or.inr ⟨hc, Or.inl hframes⟩, hlist⟩
    · exact ⟨Or.inr ⟨hc, Or.inr ⟨_, _, hframes⟩⟩, hlist⟩
  | remove hf' => cases hf.symm.trans hf'

theorem Does.at_remove (h : Does s e s') (hq : NoQueries s e) (hl : s.callbackList.Ok)
    (hf : s.frames = .remove :: rest) :
    s'.frames = .take :: rest ∧ s'.callbackList.getCount = s.callbackList.getCount - 1 := by
  cases h with
  | execute => cases hf.symm.trans hq
  | doing hrun =>
    rw [programRuns, hf] at hrun
    cases hrun
  | executed hf' | answered hf' | pollEnd hf' | pollIdle hf' | pollBusy hf' | takeEnd hf'
  | takeAgain hf' | takeHead hf' =>
    cases hf.symm.trans hf'
  | remove hf' hr =>
    obtain ⟨-, rfl⟩ := List.cons.inj (hf.symm.trans hf')
    exact ⟨rfl, removed_getCount hl hr⟩

theorem Does.at_executing (h : Does s e s') (hq : NoQueries s e) {n : ℕ}
    (hcalm : NoCalls (s, n) e) {index : ℕ} {ret : SqlReturn}
    (hf : s.frames = .executing index ret :: rest) :
    s'.frames = rest ∧ s'.callbackList = s.callbackList := by
  cases h with
  | execute => cases hf.symm.trans hq
  | doing => exact hcalm.elim
  | executed hf' =>
    obtain ⟨-, rfl⟩ := List.cons.inj (hf.symm.trans hf')
    exact ⟨rfl, rfl⟩
  | answered hf' | pollEnd hf' | pollIdle hf' | pollBusy hf' | takeEnd hf' | takeAgain hf'
  | takeHead hf' | remove hf' =>
    cases hf.symm.trans hf'

inductive InLoop (c₀ : ℕ) (rest : List CallFrame) (s : HSODBC) (n : ℕ) : Prop where
  | ended : s.frames = rest → n ≤ c₀ → InLoop c₀ rest s n
  | head : s.frames = .take :: rest → n + s.callbackList.getCount ≤ c₀ → InLoop c₀ rest s n
  | body {above : List CallFrame} : s.frames = above ++ .remove :: rest → n ≤ c₀ →
      n + s.callbackList.getCount ≤ c₀ + 1 → InLoop c₀ rest s n

variable {c₀ n n' : ℕ}

theorem not_enters (h : s.frames ≠ .take :: rest) : ¬ Enters rest s := fun he => h he.1

theorem LoopStep.does (h : LoopStep rest (s, n) e (s', n')) :
    s.frames ≠ rest ∧ NoQueries s e ∧ Does s e s' ∧
      n' = if Enters rest s then n + 1 else n := by
  obtain ⟨hrest, ⟨hq, hs⟩, hn⟩ := h
  exact ⟨hrest, hq, Step.does hs, hn⟩

theorem InLoop.body_step {above : List CallFrame} (hf : s.frames = above ++ .remove :: rest)
    (hn : n ≤ c₀) (hc : n + s.callbackList.getCount ≤ c₀ + 1) (hl : s.callbackList.Ok)
    (hq : NoQueries s e) (h : Does s e s') : InLoop c₀ rest s' n := by
  cases above with
  | nil =>
    obtain ⟨hf', hc'⟩ := h.at_remove hq hl hf
    exact .head hf' (by omega)
  | cons f fs =>
    obtain ⟨⟨inner, hf'⟩, hc'⟩ := h.below hq hl hf
    exact .body (hf'.trans (List.append_assoc _ _ _).symm) hn (by omega)

theorem InLoop.step (h : InLoop c₀ rest s n) (hl : s.callbackList.Ok)
    (hs : LoopStep rest (s, n) e (s', n')) : InLoop c₀ rest s' n' := by
  obtain ⟨hrest, hq, hdoes, hn'⟩ := hs.does
  cases h with
  | ended hf => exact absurd hf hrest
  | head hf hc =>
    obtain ⟨hframes, hlist⟩ := hdoes.at_take hq hl hf
    have hcount : n' ≤ c₀ ∧ n' + s.callbackList.getCount ≤ c₀ + 1 := by
      rw [hn']
      split_ifs with henter
      · have hne := henter.2
        omega
      · omega
    obtain ⟨hle, hle'⟩ := hcount
    rw [← hlist] at hle'
    rcases hframes with hended | ⟨-, hremove | ⟨index, ret, hexec⟩⟩
    · exact .ended hended hle
    · have hbody : s'.frames = ([] : List CallFrame) ++ .remove :: rest := hremove
      exact .body hbody hle hle'
    · have hbody : s'.frames = [CallFrame.executing index ret] ++ .remove :: rest := hexec
      exact .body hbody hle hle'
  | @body above hf hn hc =>
    have hnot : ¬ Enters rest s := by
      apply not_enters
      rw [hf]
      cases above with
      | nil =>
        intro hsame
        cases hsame
      | cons f fs =>
        intro hsame
        have hlen := congrArg List.length hsame
        simp only [List.length_append, List.length_cons] at hlen
        omega
    rw [if_neg hnot] at hn'
    rw [hn']
    exact InLoop.body_step hf hn hc hl hq hdoes

theorem InLoop.entered (h : InLoop c₀ rest s n) : n ≤ c₀ := by
  cases h with
  | ended _ hn => exact hn
  | head _ hc => exact (Nat.le_add_right _ _).trans hc
  | body _ hn _ => exact hn

theorem loop_entered (hl : s.callbackList.Ok) (hf : s.frames = .take :: rest) {es : List DbAct}
    {t : HSODBC} (h : Run (LoopStep rest) (s, 0) es (t, n)) :
    n ≤ s.callbackList.getCount := by
  let I : HSODBC × ℕ → Prop := fun p => p.1.callbackList.Ok ∧
    InLoop s.callbackList.getCount rest p.1 p.2
  have h₀ : I (s, 0) := ⟨hl, .head hf (Nat.zero_add _).le⟩
  have hstep : ∀ p e p', I p → LoopStep rest p e p' → I p' := fun p e p' hI hs =>
    ⟨(Step.does hs.2.1.2).list_ok hI.1, hI.2.step hI.1 hs⟩
  exact (h.invariant h₀ hstep).2.entered

inductive CalmLoop (c₀ : ℕ) (rest : List CallFrame) (k : ℕ) (s : HSODBC) : Prop where
  | ended : s.frames = rest → k ≤ 3 * c₀ + 1 → CalmLoop c₀ rest k s
  | head : s.frames = .take :: rest → k + 3 * s.callbackList.getCount ≤ 3 * c₀ →
      CalmLoop c₀ rest k s
  | executing {index : ℕ} {ret : SqlReturn} : s.frames = .executing index ret :: .remove :: rest →
      s.callbackList.getCount ≠ 0 → k + 3 * s.callbackList.getCount ≤ 3 * c₀ + 1 →
      CalmLoop c₀ rest k s
  | remove : s.frames = .remove :: rest → s.callbackList.getCount ≠ 0 →
      k + 3 * s.callbackList.getCount ≤ 3 * c₀ + 2 → CalmLoop c₀ rest k s

variable {k : ℕ}

theorem CalmLoop.step (h : CalmLoop c₀ rest k s) (hl : s.callbackList.Ok)
    (hcalm : NoCalls (s, n) e) (hs : LoopStep rest (s, n) e (s', n')) :
    CalmLoop c₀ rest (k + 1) s' := by
  obtain ⟨hrest, hq, hdoes, -⟩ := hs.does
  cases h with
  | ended hf => exact absurd hf hrest
  | head hf hk =>
    obtain ⟨hframes, hlist⟩ := hdoes.at_take hq hl hf
    rw [← hlist] at hk hframes
    rcases hframes with hended | ⟨hne, hremove | ⟨index, ret, hexec⟩⟩
    · exact .ended hended (by omega)
    · exact .remove hremove hne (by omega)
    · exact .executing hexec hne (by omega)
  | executing hf hne hk =>
    obtain ⟨hframes, hlist⟩ := hdoes.at_executing hq hcalm hf
    rw [← hlist] at hne hk
    exact .remove hframes hne (by omega)
  | remove hf hne hk =>
    obtain ⟨hframes, hcount⟩ := hdoes.at_remove hq hl hf
    exact .head hframes (by omega)

theorem CalmLoop.bound (h : CalmLoop c₀ rest k s) : k ≤ 3 * c₀ + 1 := by
  cases h with
  | ended _ hk => exact hk
  | head _ hk => omega
  | executing _ hne hk => omega
  | remove _ hne hk => omega

theorem takeHead_returns (hl : s.callbackList.Ok) (ret : SqlReturn) (rest : List CallFrame) :
    ∃ s', s.takeHead ret rest = .ok s' := by
  by_cases hc : s.callbackList.getCount = 0
  · exact ⟨_, by rw [HSODBC.takeHead, if_pos hc]⟩
  · obtain ⟨qc, hv⟩ := hl.getHeadValue_eq hc
    rw [HSODBC.takeHead, if_neg hc, hv]
    simp only [bind, Except.bind, pure, Except.pure]
    by_cases hi : s.getCanUseHandleIndex ≥ handleCount
    · rw [if_pos hi]
      exact ⟨_, rfl⟩
    · -- on a free handle the statement is executed, whether it ends or not
      have hindex : queryIndex { s with frames := .remove :: rest } s.getCanUseHandleIndex =
          s.getCanUseHandleIndex := if_neg (by omega)
      rw [if_neg hi, executeQuery]
      simp only [hindex, if_neg hi]
      split_ifs
      · exact ⟨_, rfl⟩
      · exact ⟨_, rfl⟩

theorem CalmLoop.goes_on (h : CalmLoop c₀ rest k s) (hl : s.callbackList.Ok)
    (hrest : s.frames ≠ rest) (ret : SqlReturn) :
    ∃ s', Step s (.work ret) s' ∨ Step s .callbackReturns s' := by
  cases h with
  | ended hf => exact absurd hf hrest
  | head hf =>
    obtain ⟨s', htake⟩ := takeHead_returns hl ret rest
    refine ⟨s', Or.inl ?_⟩
    simp only [Step, next, hf, htake]
    rfl
  | @executing index ret' hf =>
    refine ⟨{ s with
      frames := .remove :: rest, log := s.log ++ [.returned (ret' = .success)] }, Or.inr ?_⟩
    simp only [Step, next, hf]
  | remove hf hne =>
    obtain ⟨l, hremove, -⟩ := hl.removeHead_spec hne
    refine ⟨{ s with callbackList := l, frames := .take :: rest }, Or.inl ?_⟩
    simp only [Step, next, hf, hremove]
    rfl

variable {cb : ℕ → HSSqlCallback} {es : List DbAct}

theorem list_ok_run (h : Run Step (init cb) es s) : s.callbackList.Ok :=
  Run.invariant (P := fun s => s.callbackList.Ok) HSList.new_ok
    (fun _ _ _ hl hs => (Step.does hs).list_ok hl) h

theorem loop_calm (hl : s.callbackList.Ok) (hf : s.frames = .take :: rest) {t : HSODBC}
    (h : Run (Guarded NoCalls (LoopStep rest)) (s, 0) es (t, n)) :
    t.callbackList.Ok ∧ CalmLoop s.callbackList.getCount rest es.length t := by
  let I : List DbAct → HSODBC × ℕ → Prop := fun es p => p.1.callbackList.Ok ∧
    CalmLoop s.callbackList.getCount rest es.length p.1
  have h₀ : I [] (s, 0) := ⟨hl, .head hf (Nat.zero_add _).le⟩
  have hstep : ∀ es p e p', I es p → Guarded NoCalls (LoopStep rest) p e p' → I (es ++ [e]) p' := by
    rintro es ⟨p, n⟩ e ⟨p', n'⟩ ⟨hl, hI⟩ ⟨hcalm, hs⟩
    refine ⟨(Step.does hs.2.1.2).list_ok hl, ?_⟩
    rw [List.length_append, List.length_singleton]
    exact hI.step hl hcalm hs
  exact h.history h₀ hstep

/-- A list with entries has a head. The loop enters its body at most once for each entry there was,
and if the callbacks call nothing it is over after three acts for each and one more. -/
theorem doing_ends (cb : ℕ → HSSqlCallback) {es : List DbAct} {s : HSODBC}
    (h : Run (Guarded NoQueries Step) (init cb) es s) :
    (s.callbackList.getCount ≠ 0 → ∃ qc, s.callbackList.getHeadValue = .ok (some qc)) ∧
    ∀ rest, s.frames = .take :: rest →
      (∀ es t n, Run (LoopStep rest) (s, 0) es (t, n) → n ≤ s.callbackList.getCount) ∧
      ∀ es t n, Run (Guarded NoCalls (LoopStep rest)) (s, 0) es (t, n) →
        es.length ≤ 3 * s.callbackList.getCount + 1 ∧
        (t.frames ≠ rest → ∀ ret : SqlReturn, ∃ p,
          LoopStep rest (t, n) (.work ret) p ∨ LoopStep rest (t, n) .callbackReturns p) := by
  have hl := list_ok_run h.of_guarded
  refine ⟨hl.getHeadValue_eq, fun rest hf => ⟨fun es t n => loop_entered hl hf, ?_⟩⟩
  intro es t n hrun
  obtain ⟨hlt, hcalm⟩ := loop_calm hl hf hrun
  refine ⟨hcalm.bound, fun hrest ret => ?_⟩
  obtain ⟨t', hwork | hreturns⟩ := hcalm.goes_on hlt hrest ret
  · exact ⟨(t', _), Or.inl ⟨hrest, ⟨trivial, hwork⟩, rfl⟩⟩
  · exact ⟨(t', _), Or.inr ⟨hrest, ⟨trivial, hreturns⟩, rfl⟩⟩

theorem noQueries_of_quiet (s : HSODBC) (e : DbAct) (s' : HSODBC) (h : QuietStep s e s') :
    Guarded NoQueries Step s e s' := by
  obtain ⟨hq, hs⟩ := h
  cases e with
  | executeQuery => exact ⟨hq.2, hs⟩
  | doing => exact ⟨trivial, hs⟩
  | work => exact ⟨trivial, hs⟩
  | callbackReturns => exact ⟨trivial, hs⟩

def oneWaiting : List DbAct :=
  [query "a" .stillExecuting, query "b" .stillExecuting, query "c" .success, .doing,
    .work .success, .callbackReturns, .work .stillExecuting, .work .success]

theorem doing_ends_one :
    ∃ s, Run (Guarded NoQueries Step) (init fun _ => noCallback) oneWaiting s ∧
      s.frames = [.take] ∧ (∃ qc, s.callbackList.getHeadValue = .ok (some qc)) ∧
      ∀ es t n, Run (Guarded NoCalls (LoopStep [])) (s, 0) es (t, n) → es.length ≤ 4 := by
  have hrun : (oneWaiting.foldlM quietNext (init fun _ => noCallback)).map
      (fun (s : HSODBC) => (s.callbackList.getCount, s.frames)) = some (1, [.take]) := by
    decide +kernel
  obtain ⟨s, hs, hobs⟩ := Run.of_observed quietStep_of_next hrun
  obtain ⟨hcount, hframes⟩ := Prod.mk.inj hobs
  have hs' : Run (Guarded NoQueries Step) (init fun _ => noCallback) oneWaiting s :=
    hs.mono noQueries_of_quiet
  obtain ⟨hhead, hloop⟩ := doing_ends (fun _ => noCallback) hs'
  obtain ⟨-, hacts⟩ := hloop [] hframes
  rw [hcount] at hacts
  exact ⟨s, hs', hframes, hhead (hcount ▸ one_ne_zero), fun es t n h => (hacts es t n h).1⟩

end HsCommon.HSODBC
