import HsCommon.Odbc

/-!
# The callbacks of the statements

The ledger is read off the log: which callbacks belong to statements that are
executing on a handle, and which to statements that have ended and are owed their
callback. `Doing` owes one for good when a poll answers with an error, and
`ExecuteQuery` when it is told to use a handle that is executing and the new
statement does not end at once.
-/

namespace HsCommon.HSODBC
open Transition

structure Ledger where
  running : ℕ → List HSSqlCallback
  owed : List (HSSqlCallback × SqlReturn)

namespace Ledger

def start (index : ℕ) (callback : HSSqlCallback) (L : Ledger) : Ledger :=
  { L with running := Function.update L.running index (L.running index ++ [callback]) }

def owe (callback : HSSqlCallback) (ret : SqlReturn) (L : Ledger) : Ledger :=
  { L with owed := L.owed ++ [(callback, ret)] }

def stop (index : ℕ) (ret : SqlReturn) (L : Ledger) : Ledger where
  running := Function.update L.running index []
  owed := L.owed ++ (L.running index).map fun callback => (callback, ret)

def invoke (failed : Bool) (callback : HSSqlCallback) (L : Ledger) : Option Ledger :=
  (L.owed.find? fun w => w.1 = callback && (!w.2.failed || failed)).map fun w =>
    { L with owed := L.owed.erase w }

def book (L : Ledger) : DbEvent → Option Ledger
  | .queued _ _ => some L
  | .handed _ index _ callback ret =>
    some (if ret = .stillExecuting then L.start index callback else L.owe callback ret)
  | .polled index ret => some (if ret = .stillExecuting then L else L.stop index ret)
  | .invoked _ failed callback => L.invoke failed callback
  | .returned _ => some L

end Ledger

/-- `none` if a callback was invoked that was not owed. -/
def ledger (s : HSODBC) : Option Ledger := s.log.foldlM Ledger.book ⟨fun _ => [], []⟩

def Settled (s : HSODBC) : Prop := ∃ L, s.ledger = some L ∧ L.owed = []

/-- The poll of a statement does not answer with an error, and a statement that goes on executing
was given to a handle that was free. -/
def Answerable (s : HSODBC) : DbAct → Prop
  | .executeQuery _ _ useIndex ret =>
    ret = .stillExecuting → s.queryIndex useIndex < handleCount →
      (s.hstmt (s.queryIndex useIndex)).doing = false
  | .work ret => ∀ i rest, s.frames = .poll i :: rest → i < handleCount →
      (s.hstmt i).doing = true → ret ≠ .error
  | .doing => True
  | .callbackReturns => True

variable {s s' : HSODBC} {e : DbAct} {L L' : Ledger}

inductive HandleStep (s : HSODBC) (e : DbAct) (s' : HSODBC) : Prop where
  | idle : Answerable s e → s'.hstmt = s.hstmt → s'.ledger = s.ledger → HandleStep s e s'
  | start {index : ℕ} {callback : HSSqlCallback} : index < handleCount →
      (Answerable s e ↔ (s.hstmt index).doing = false) →
      s'.hstmt = Function.update s.hstmt index ⟨true, callback⟩ →
      s'.ledger = s.ledger.map (Ledger.start index callback) → HandleStep s e s'
  | finish (callback : HSSqlCallback) (ret : SqlReturn) : Answerable s e →
      s'.hstmt = s.hstmt →
      s'.ledger = s.ledger.bind (fun L => (L.owe callback ret).invoke (ret ≠ .success) callback) →
      HandleStep s e s'
  | pollEnd (i : ℕ) (ret : SqlReturn) : Answerable s e → i < handleCount →
      (s.hstmt i).doing = true →
      s'.hstmt = Function.update s.hstmt i { s.hstmt i with doing := false } →
      s'.ledger = s.ledger.bind (fun L =>
        (L.stop i ret).invoke (ret ≠ .success) (s.hstmt i).callback) →
      HandleStep s e s'
  | pollError {i : ℕ} : ¬ Answerable s e → i < handleCount → (s.hstmt i).doing = true →
      s'.hstmt = Function.update s.hstmt i { s.hstmt i with doing := false } →
      s'.ledger = s.ledger.map (Ledger.stop i .error) → HandleStep s e s'

theorem ledger_append {hstmt : ℕ → DataHandle} {l : HSList QueryAndCallback}
    {frames : List CallFrame} (events : List DbEvent) :
    ledger ⟨hstmt, l, frames, s.log ++ events⟩ =
      s.ledger.bind fun L => events.foldlM Ledger.book L := by
  rw [ledger, List.foldlM_append]
  rfl

theorem ledger_same {hstmt : ℕ → DataHandle} {l : HSList QueryAndCallback}
    {frames : List CallFrame} {events : List DbEvent}
    (h : ∀ L, events.foldlM Ledger.book L = some L) :
    ledger ⟨hstmt, l, frames, s.log ++ events⟩ = s.ledger := by
  rw [ledger_append, funext h]
  exact Option.bind_fun_some _

theorem bind_some_map (o : Option Ledger) (f : Ledger → Ledger) :
    (o.bind fun L => some (f L)) = o.map f := by
  cases o with
  | none => rfl
  | some L => rfl

theorem Executes.handleStep {number : Option ℕ} {statement : String} {callback : HSSqlCallback}
    {index : ℕ} {ret : SqlReturn} {frames : List CallFrame}
    (h : Executes number statement callback index ret { s with frames := frames } s')
    (hans : Answerable s e ↔
      (ret = .stillExecuting → index < handleCount → (s.hstmt index).doing = false)) :
    HandleStep s e s' := by
  cases h with
  | queues hge =>
    exact .idle (hans.mpr fun _ hlt => absurd hlt (Nat.not_lt.mpr hge)) rfl
      (ledger_same fun _ => rfl)
  | starts hlt hret =>
    refine .start hlt ⟨fun h => hans.mp h hret hlt, fun h => hans.mpr fun _ _ => h⟩ rfl ?_
    rw [ledger_append, ← bind_some_map]
    simp only [List.foldlM_cons, List.foldlM_nil, Ledger.book, hret, if_true]
    rfl
  | ends hlt hret =>
    refine .finish callback ret (hans.mpr fun h => absurd h hret) rfl ?_
    rw [ledger_append]
    simp only [List.foldlM_cons, List.foldlM_nil, Ledger.book, if_neg hret, bind_pure]
    rfl

theorem Does.handleStep (h : Does s e s') : HandleStep s e s' := by
  cases h with
  | execute _ h => exact h.handleStep Iff.rfl
  | doing => exact .idle trivial rfl rfl
  | executed => exact .idle trivial rfl (ledger_same fun _ => rfl)
  | answered => exact .idle trivial rfl rfl
  | pollEnd hf hi =>
    refine .idle (fun j _ hj hlt => ?_) rfl rfl
    rw [hf] at hj
    obtain ⟨hj, -⟩ := List.cons.inj hj
    obtain rfl := CallFrame.poll.inj hj
    omega
  | pollIdle hf _ hd =>
    refine .idle (fun j _ hj _ hbusy => ?_) rfl rfl
    rw [hf] at hj
    obtain ⟨hj, -⟩ := List.cons.inj hj
    obtain rfl := CallFrame.poll.inj hj
    rw [hd] at hbusy
    cases hbusy
  | @pollBusy i ret rest hf hi hd =>
    have hans : ret ≠ .error → Answerable s (.work ret) := fun h _ _ _ _ _ => h
    simp only [pollHandle]
    split_ifs with hstill herr
    · subst hstill
      exact .idle (hans (by decide)) rfl (ledger_same fun _ => rfl)
    · subst herr
      refine .pollError (fun h => h i rest hf hi hd rfl) hi hd rfl ?_
      rw [ledger_append, ← bind_some_map]
      rfl
    · refine .pollEnd i ret (hans herr) hi hd rfl ?_
      rw [ledger_append]
      simp only [List.foldlM_cons, List.foldlM_nil, Ledger.book, if_neg hstill, bind_pure]
      rfl
  | takeEnd hf =>
    exact .idle (fun j _ hj => by rw [hf] at hj; cases hj) rfl rfl
  | takeAgain hf =>
    exact .idle (fun j _ hj => by rw [hf] at hj; cases hj) rfl rfl
  | takeHead hf _ _ hi h =>
    refine h.handleStep ⟨fun _ _ _ => getCanUseHandleIndex_idle hi, fun _ j _ hj => ?_⟩
    rw [hf] at hj
    cases hj
  | remove hf =>
    exact .idle (fun j _ hj => by rw [hf] at hj; cases hj) rfl rfl

def DataHandle.held (h : DataHandle) : List HSSqlCallback := if h.doing then [h.callback] else []

def Booked (s : HSODBC) : Prop := s.ledger = some ⟨DataHandle.held ∘ s.hstmt, []⟩

theorem held_busy {h : DataHandle} (hd : h.doing = true) : DataHandle.held h = [h.callback] :=
  if_pos hd

theorem held_idle {h : DataHandle} (hd : h.doing = false) : DataHandle.held h = [] :=
  if_neg (Bool.eq_false_iff.mp hd)

theorem invoke_single (running : ℕ → List HSSqlCallback) (callback : HSSqlCallback)
    (ret : SqlReturn) :
    Ledger.invoke (ret ≠ .success) callback ⟨running, [(callback, ret)]⟩ = some ⟨running, []⟩ := by
  have htold : (!ret.failed || decide (ret ≠ .success)) = true := by
    cases ret <;> simp [SqlReturn.failed]
  simp only [Ledger.invoke, List.find?_cons, decide_true, Bool.true_and, htold, Option.map_some,
    List.erase_cons_head]

theorem Booked.step (h : Booked s) (hs : HandleStep s e s') (ha : Answerable s e) :
    Booked s' := by
  simp only [Booked] at h ⊢
  cases hs with
  | idle _ hh hl => rw [hl, hh, h]
  | @start index callback _ hfree hh hl =>
    rw [hl, hh, h, Option.map_some, Function.comp_update]
    simp only [Ledger.start, Function.comp_apply, held_idle (hfree.mp ha)]
    rfl
  | finish callback ret _ hh hl =>
    rw [hl, hh, h]
    exact invoke_single _ callback ret
  | pollEnd i ret _ _ hd hh hl =>
    rw [hl, hh, h, Function.comp_update, Option.bind_some]
    simp only [Ledger.stop, Function.comp_apply, held_busy hd, List.map_cons, List.map_nil,
      List.nil_append]
    exact invoke_single _ _ ret
  | pollError hno => exact absurd ha hno

theorem Booked.settled (h : Booked s) : Settled s := ⟨_, h, rfl⟩

def load (f : ℕ → ℕ) : ℕ := ∑ i ∈ Finset.range handleCount, f i

theorem load_update (f : ℕ → ℕ) {i : ℕ} (hi : i < handleCount) (n : ℕ) :
    load (Function.update f i n) + f i = load f + n := by
  have hmem := Finset.mem_range.mpr hi
  have hsum := Finset.sum_update_of_mem hmem f n
  have hself := Finset.sum_eq_add_sum_sdiff_singleton_of_mem hmem f
  simp only [load]
  omega

def busy (s : HSODBC) : ℕ := load ((fun h : DataHandle => h.doing.toNat) ∘ s.hstmt)

def Ledger.executing (L : Ledger) : ℕ := load (List.length ∘ L.running)

def Lost (s : HSODBC) : Prop :=
  ∀ L, s.ledger = some L → s.busy < L.owed.length + L.executing

theorem busy_update {i : ℕ} {h : DataHandle} (hi : i < handleCount)
    (hh : s'.hstmt = Function.update s.hstmt i h) :
    s'.busy + (s.hstmt i).doing.toNat = s.busy + h.doing.toNat := by
  simp only [busy, hh]
  rw [Function.comp_update]
  exact load_update _ hi _

theorem executing_start {index : ℕ} (hi : index < handleCount) (callback : HSSqlCallback) :
    (L.start index callback).executing = L.executing + 1 := by
  have hl := load_update (List.length ∘ L.running) hi (L.running index ++ [callback]).length
  simp only [Ledger.executing, Ledger.start]
  rw [Function.comp_update]
  simp only [Function.comp_apply, List.length_append, List.length_singleton] at hl ⊢
  omega

theorem executing_stop {i : ℕ} (hi : i < handleCount) (ret : SqlReturn) :
    (L.stop i ret).owed.length + (L.stop i ret).executing = L.owed.length + L.executing := by
  have hl := load_update (List.length ∘ L.running) hi 0
  simp only [Ledger.executing, Ledger.stop]
  rw [Function.comp_update]
  simp only [Function.comp_apply, List.length_append, List.length_map, List.length_nil] at hl ⊢
  omega

theorem invoke_spec {failed : Bool} {callback : HSSqlCallback}
    (h : L.invoke failed callback = some L') :
    L'.running = L.running ∧ L'.owed.length + 1 = L.owed.length := by
  obtain ⟨w, hw, rfl⟩ := Option.map_eq_some_iff.mp h
  have hmem := List.mem_of_find?_eq_some hw
  have hpos := List.length_pos_of_mem hmem
  refine ⟨rfl, ?_⟩
  rw [List.length_erase_of_mem hmem]
  omega

theorem Lost.step (h : Lost s) (hs : HandleStep s e s') : Lost s' := by
  intro L' hL'
  cases hs with
  | idle _ hh hl =>
    rw [hl] at hL'
    simp only [busy, hh]
    exact h L' hL'
  | @start index callback hi _ hh hl =>
    rw [hl] at hL'
    obtain ⟨L, hL, rfl⟩ := Option.map_eq_some_iff.mp hL'
    have hlt := h L hL
    have hbusy := busy_update hi hh
    rw [executing_start hi]
    simp only [Ledger.start, Bool.toNat_true] at hbusy ⊢
    omega
  | finish callback ret _ hh hl =>
    rw [hl] at hL'
    obtain ⟨L, hL, hinv⟩ := Option.bind_eq_some_iff.mp hL'
    have hlt := h L hL
    obtain ⟨hrun, hlen⟩ := invoke_spec hinv
    simp only [Ledger.owe, List.length_append, List.length_singleton] at hrun hlen
    simp only [busy, hh, Ledger.executing, hrun] at hlt ⊢
    omega
  | pollEnd i ret _ hi hd hh hl =>
    rw [hl] at hL'
    obtain ⟨L, hL, hinv⟩ := Option.bind_eq_some_iff.mp hL'
    have hlt := h L hL
    have hbusy := busy_update hi hh
    obtain ⟨hrun, hlen⟩ := invoke_spec hinv
    have hstop := @executing_stop L i hi ret
    simp only [Ledger.executing, hrun] at hlt hstop ⊢
    simp only [hd, Bool.toNat_true, Bool.toNat_false] at hbusy
    omega
  | @pollError i _ hi hd hh hl =>
    rw [hl] at hL'
    obtain ⟨L, hL, rfl⟩ := Option.map_eq_some_iff.mp hL'
    have hlt := h L hL
    have hbusy := busy_update hi hh
    rw [executing_stop hi]
    simp only [hd, Bool.toNat_true, Bool.toNat_false] at hbusy
    omega

theorem held_length (h : DataHandle) : (DataHandle.held h).length = h.doing.toNat := by
  cases hd : h.doing with
  | false => rw [held_idle hd]; rfl
  | true => rw [held_busy hd]; rfl

theorem executing_held (s : HSODBC) :
    Ledger.executing ⟨DataHandle.held ∘ s.hstmt, []⟩ = s.busy := by
  simp only [Ledger.executing, busy, Function.comp_def, held_length]

theorem HandleStep.lost (hs : HandleStep s e s') (h : Booked s) (hno : ¬ Answerable s e) :
    Lost s' := by
  intro L' hL'
  have hexec := executing_held s
  cases hs with
  | idle ha => exact absurd ha hno
  | @start index callback hi hfree hh hl =>
    have hd : (s.hstmt index).doing = true := by
      rw [← Bool.not_eq_false, ← hfree]
      exact hno
    have hbusy := busy_update hi hh
    rw [hl, h] at hL'
    obtain rfl := Option.some.inj hL'
    rw [executing_start hi, hexec]
    simp only [hd, Bool.toNat_true, Ledger.start, List.length_nil] at hbusy ⊢
    omega
  | finish _ _ ha => exact absurd ha hno
  | pollEnd _ _ ha => exact absurd ha hno
  | @pollError i _ hi hd hh hl =>
    have hbusy := busy_update hi hh
    rw [hl, h] at hL'
    obtain rfl := Option.some.inj hL'
    rw [executing_stop hi, hexec]
    simp only [hd, Bool.toNat_true, Bool.toNat_false, List.length_nil] at hbusy ⊢
    omega

def Marked (s : HSODBC) : Prop :=
  ∀ L, s.ledger = some L → ∀ i, (s.hstmt i).doing = false → L.running i = []

theorem Marked.stop (h : Marked s) (hL : s.ledger = some L) {i : ℕ}
    (hh : s'.hstmt = Function.update s.hstmt i { s.hstmt i with doing := false }) {j : ℕ}
    (hj : (s'.hstmt j).doing = false) (ret : SqlReturn) : (L.stop i ret).running j = [] := by
  by_cases hji : j = i
  · subst hji
    exact Function.update_self _ _ _
  · rw [hh, Function.update_of_ne hji] at hj
    exact (Function.update_of_ne hji _ _).trans (h L hL j hj)

theorem Marked.step (h : Marked s) (hs : HandleStep s e s') : Marked s' := by
  intro L' hL' j hj
  cases hs with
  | idle _ hh hl =>
    rw [hl] at hL'
    rw [hh] at hj
    exact h L' hL' j hj
  | @start index callback hi _ hh hl =>
    rw [hl] at hL'
    obtain ⟨L, hL, rfl⟩ := Option.map_eq_some_iff.mp hL'
    have hne : j ≠ index := by
      rintro rfl
      rw [hh, Function.update_self] at hj
      cases hj
    rw [hh, Function.update_of_ne hne] at hj
    exact (Function.update_of_ne hne _ _).trans (h L hL j hj)
  | finish callback ret _ hh hl =>
    rw [hl] at hL'
    obtain ⟨L, hL, hinv⟩ := Option.bind_eq_some_iff.mp hL'
    rw [hh] at hj
    rw [(invoke_spec hinv).1]
    exact h L hL j hj
  | pollEnd i ret _ _ _ hh hl =>
    rw [hl] at hL'
    obtain ⟨L, hL, hinv⟩ := Option.bind_eq_some_iff.mp hL'
    rw [(invoke_spec hinv).1]
    exact h.stop hL hh hj ret
  | @pollError i _ _ _ hh hl =>
    rw [hl] at hL'
    obtain ⟨L, hL, rfl⟩ := Option.map_eq_some_iff.mp hL'
    exact h.stop hL hh hj .error

def Idle (s : HSODBC) : Prop := ∀ i < handleCount, (s.hstmt i).doing = false

theorem Lost.not_settled (h : Lost s) (hm : Marked s) (hidle : Idle s) : ¬ Settled s := by
  rintro ⟨L, hL, hnil⟩
  have hlt := h L hL
  have hzero : L.executing = 0 := by
    simp only [Ledger.executing, load]
    refine Finset.sum_eq_zero fun i hi => ?_
    rw [Function.comp_apply, hm L hL i (hidle i (Finset.mem_range.mp hi))]
    rfl
  rw [hnil, hzero] at hlt
  exact absurd hlt (Nat.not_lt_zero _)

variable {cb : ℕ → HSSqlCallback} {es : List DbAct}

theorem booked_run (h : Run (Guarded Answerable Step) (init cb) es s) : Booked s :=
  h.invariant (show Booked (init cb) from rfl) fun _ _ _ hb hstep =>
    hb.step (Step.does hstep.2).handleStep hstep.1

theorem marked_run (h : Run Step (init cb) es s) : Marked s := by
  refine h.invariant ?_ fun _ _ _ hm hstep => hm.step (Step.does hstep).handleStep
  intro L hL i _
  obtain rfl := Option.some.inj hL
  rfl

/-- Every statement that has ended has had its callback in every run of answerable acts, and a run
with this and no statement executing at its end is one of these. -/
theorem callbacks_invoked (cb : ℕ → HSSqlCallback) (es : List DbAct) (s : HSODBC) :
    (Run (Guarded Answerable Step) (init cb) es s → Settled s) ∧
    (Run Step (init cb) es s → Idle s →
      (Settled s ↔ Run (Guarded Answerable Step) (init cb) es s)) := by
  refine ⟨fun h => (booked_run h).settled, fun h hidle => ⟨fun hset => ?_, fun h => ?_⟩⟩
  · have hor : Run (Guarded Answerable Step) (init cb) es s ∨ Lost s := by
      refine h.guarded_or ?_ ?_
      · intro es s e s' hrun hno hstep
        exact (Step.does hstep).handleStep.lost (booked_run hrun) hno
      · intro es s e s' _ hlost hstep
        exact hlost.step (Step.does hstep).handleStep
    rcases hor with hrun | hlost
    · exact hrun
    · exact absurd hset (hlost.not_settled (marked_run h) hidle)
  · exact (booked_run h).settled

def errorPolled : List DbAct :=
  [.executeQuery "a" ⟨fun _ => 0, "", 0⟩ defaultUseIndex .stillExecuting, .doing, .work .error]

theorem polledError_unanswered :
    ∃ s, Run Step (init fun _ => ⟨fun _ => 0, "", 0⟩) errorPolled s ∧ Idle s ∧ ¬ Settled s := by
  have hrun : (errorPolled.foldlM next (init fun _ => ⟨fun _ => 0, "", 0⟩)).map
      (fun (s : HSODBC) => ((s.hstmt 0).doing, (s.hstmt 1).doing, s.ledger.map Ledger.owed)) =
      some (false, false, some [(⟨fun _ => 0, "", 0⟩, .error)]) := by
    decide +kernel
  obtain ⟨s, hs, hobs⟩ := Run.of_observed (fun _ _ _ h => h) hrun
  obtain ⟨hzero, hobs⟩ := Prod.mk.inj hobs
  obtain ⟨hone, howed⟩ := Prod.mk.inj hobs
  refine ⟨s, hs, fun i hi => ?_, ?_⟩
  · have hi' : i = 0 ∨ i = 1 := by
      simp only [handleCount] at hi
      omega
    rcases hi' with rfl | rfl
    · exact hzero
    · exact hone
  · rintro ⟨L, hL, hnil⟩
    rw [hL, Option.map_some, hnil] at howed
    cases howed

end HsCommon.HSODBC
