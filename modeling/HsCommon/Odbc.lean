import HsCommon.Library.Outcome
import HsCommon.Library.Runs
import HsCommon.LinkedList

/-!
# hs_odbc.cpp

`ExecuteQuery` and `Doing` call back into the program, and a callback may call
either of them again. The calls in progress are a stack of frames, innermost
first, and a run is a list of acts: calls the program makes, the next piece of
work of a `Doing` in progress, and the return of a callback. The driver's answer
to `SQLExecDirect` comes with the act.

The log has what the outside sees, the calls of the driver and of the callbacks,
and what was put on the list. `number` in an entry of the list is how many were
put there before it, which tells entries with the same contents apart.
-/

namespace HsCommon
open Transition

inductive SqlReturn
  | success
  | successWithInfo
  | stillExecuting
  | error
  | other (code : ℤ)
  deriving DecidableEq

def SqlReturn.failed : SqlReturn → Bool
  | .success | .successWithInfo | .stillExecuting => false
  | .error | .other _ => true

structure HSSqlCallback where
  param : Fin 4 → UInt32
  sparam : String
  callback : ℕ
  deriving DecidableEq

structure DataHandle where
  doing : Bool
  callback : HSSqlCallback

structure QueryAndCallback where
  callback : HSSqlCallback
  statement : String
  number : ℕ

inductive DbEvent
  | queued (number : ℕ) (statement : String)
  | handed (number : Option ℕ) (index : ℕ) (statement : String) (callback : HSSqlCallback)
      (ret : SqlReturn)
  | polled (index : ℕ) (ret : SqlReturn)
  | invoked (index : ℕ) (failed : Bool) (callback : HSSqlCallback)
  | returned (ok : Bool)
  deriving DecidableEq

def DbEvent.queuedEntry : DbEvent → Option (ℕ × String)
  | .queued number statement => some (number, statement)
  | _ => none

def DbEvent.passedEntry : DbEvent → Option (ℕ × String)
  | .handed (some number) _ statement _ _ => some (number, statement)
  | _ => none

/-- `poll`, `take` and `remove` are places in `Doing`: at a handle, at the list, and after the head
of the list was executed. In the other two a callback is running, called by `ExecuteQuery` or by
`Doing`. -/
inductive CallFrame
  | executing (index : ℕ) (ret : SqlReturn)
  | polled (index : ℕ)
  | poll (i : ℕ)
  | take
  | remove
  deriving DecidableEq

structure HSODBC where
  hstmt : ℕ → DataHandle
  callbackList : HSList QueryAndCallback
  frames : List CallFrame
  log : List DbEvent

inductive DbAct
  | executeQuery (statement : String) (callback : HSSqlCallback) (useIndex : ℕ) (ret : SqlReturn)
  | doing
  | work (ret : SqlReturn)
  | callbackReturns

namespace HSODBC

def handleCount : ℕ := 2

def defaultUseIndex : ℕ := 0xffffffff

/-- `cb` is what the callbacks of the handles happen to contain. -/
def init (cb : ℕ → HSSqlCallback) : HSODBC where
  hstmt i := ⟨false, cb i⟩
  callbackList := .new
  frames := []
  log := []

def queued (s : HSODBC) : List (ℕ × String) := s.log.filterMap DbEvent.queuedEntry

def passed (s : HSODBC) : List (ℕ × String) := s.log.filterMap DbEvent.passedEntry

def getCanUseHandleIndex (s : HSODBC) : ℕ :=
  ((List.range handleCount).find? fun i => !(s.hstmt i).doing).getD (handleCount + 100)

def queryIndex (s : HSODBC) (useIndex : ℕ) : ℕ :=
  if useIndex > handleCount then s.getCanUseHandleIndex else useIndex

def executeQuery (number : Option ℕ) (statement : String) (callback : HSSqlCallback)
    (useIndex : ℕ) (ret : SqlReturn) (s : HSODBC) : Except Fault HSODBC :=
  let index := s.queryIndex useIndex
  if index ≥ handleCount then do
    let l ← s.callbackList.pushValue ⟨callback, statement, s.queued.length⟩
    return { s with
      callbackList := l
      log := s.log ++ [.queued s.queued.length statement, .returned false] }
  else if ret = .stillExecuting then
    .ok { s with
      hstmt := Function.update s.hstmt index ⟨true, callback⟩
      log := s.log ++ [.handed number index statement callback ret, .returned false] }
  else
    .ok { s with
      frames := .executing index ret :: s.frames
      log := s.log ++ [.handed number index statement callback ret,
        .invoked index (ret ≠ .success) callback] }

def pollHandle (i : ℕ) (ret : SqlReturn) (rest : List CallFrame) (s : HSODBC) : HSODBC :=
  if ret = .stillExecuting then
    { s with frames := .poll (i + 1) :: rest, log := s.log ++ [.polled i ret] }
  else
    let hstmt := Function.update s.hstmt i { s.hstmt i with doing := false }
    if ret = .error then
      { s with hstmt := hstmt, frames := .poll (i + 1) :: rest, log := s.log ++ [.polled i ret] }
    else
      { s with
        hstmt := hstmt
        frames := .polled i :: .poll (i + 1) :: rest
        log := s.log ++ [.polled i ret, .invoked i (ret ≠ .success) (s.hstmt i).callback] }

def takeHead (ret : SqlReturn) (rest : List CallFrame) (s : HSODBC) : Except Fault HSODBC :=
  if s.callbackList.getCount = 0 then
    .ok { s with frames := rest }
  else do
    match ← s.callbackList.getHeadValue with
    | none => return { s with frames := .take :: rest }
    | some qc =>
      let i := s.getCanUseHandleIndex
      if i ≥ handleCount then
        return { s with frames := rest }
      else
        executeQuery (some qc.number) qc.statement qc.callback i ret
          { s with frames := .remove :: rest }

def programRuns (s : HSODBC) : Bool :=
  match s.frames with
  | [] | .executing _ _ :: _ | .polled _ :: _ => true
  | _ => false

def next (s : HSODBC) : DbAct → Option HSODBC
  | .executeQuery statement callback useIndex ret =>
    if s.programRuns then (s.executeQuery none statement callback useIndex ret).toOption else none
  | .doing => if s.programRuns then some { s with frames := .poll 0 :: s.frames } else none
  | .work ret =>
    match s.frames with
    | .poll i :: rest =>
      if i ≥ handleCount then some { s with frames := .take :: rest }
      else if (s.hstmt i).doing then some (s.pollHandle i ret rest)
      else some { s with frames := .poll (i + 1) :: rest }
    | .take :: rest => (s.takeHead ret rest).toOption
    | .remove :: rest =>
      s.callbackList.removeHead.toOption.map fun r =>
        { s with callbackList := r.2, frames := .take :: rest }
    | _ => none
  | .callbackReturns =>
    match s.frames with
    | .executing _ ret :: rest =>
      some { s with frames := rest, log := s.log ++ [.returned (ret = .success)] }
    | .polled _ :: rest => some { s with frames := rest }
    | _ => none

def Step (s : HSODBC) (e : DbAct) (s' : HSODBC) : Prop := s.next e = some s'

variable {s s' : HSODBC} {e : DbAct}

theorem getCanUseHandleIndex_idle (h : s.getCanUseHandleIndex < handleCount) :
    (s.hstmt s.getCanUseHandleIndex).doing = false := by
  revert h
  simp only [getCanUseHandleIndex]
  cases hf : (List.range handleCount).find? fun i => !(s.hstmt i).doing with
  | none =>
    intro h
    simp only [Option.getD_none] at h
    omega
  | some i =>
    intro _
    simpa using List.find?_some hf

inductive Executes (number : Option ℕ) (statement : String) (callback : HSSqlCallback)
    (index : ℕ) (ret : SqlReturn) (s : HSODBC) : HSODBC → Prop where
  | queues {l : HSList QueryAndCallback} : handleCount ≤ index →
      s.callbackList.pushValue ⟨callback, statement, s.queued.length⟩ = .ok l →
      Executes number statement callback index ret s { s with
        callbackList := l
        log := s.log ++ [.queued s.queued.length statement, .returned false] }
  | starts : index < handleCount → ret = .stillExecuting →
      Executes number statement callback index ret s { s with
        hstmt := Function.update s.hstmt index ⟨true, callback⟩
        log := s.log ++ [.handed number index statement callback ret, .returned false] }
  | ends : index < handleCount → ret ≠ .stillExecuting →
      Executes number statement callback index ret s { s with
        frames := .executing index ret :: s.frames
        log := s.log ++ [.handed number index statement callback ret,
          .invoked index (ret ≠ .success) callback] }

theorem executes {number : Option ℕ} {statement : String} {callback : HSSqlCallback}
    {useIndex : ℕ} {ret : SqlReturn}
    (h : s.executeQuery number statement callback useIndex ret = .ok s') :
    Executes number statement callback (s.queryIndex useIndex) ret s s' := by
  simp only [executeQuery] at h
  split_ifs at h with hi hr
  · cases hl : s.callbackList.pushValue ⟨callback, statement, s.queued.length⟩ with
    | error f =>
      rw [hl] at h
      cases h
    | ok l =>
      rw [hl] at h
      obtain rfl := Except.ok.inj h
      exact .queues hi hl
  · obtain rfl := Except.ok.inj h
    exact .starts (Nat.lt_of_not_le hi) hr
  · obtain rfl := Except.ok.inj h
    exact .ends (Nat.lt_of_not_le hi) hr

inductive Does (s : HSODBC) : DbAct → HSODBC → Prop where
  | execute {statement : String} {callback : HSSqlCallback} {useIndex : ℕ} {ret : SqlReturn}
      {s' : HSODBC} : s.programRuns →
      Executes none statement callback (s.queryIndex useIndex) ret s s' →
      Does s (.executeQuery statement callback useIndex ret) s'
  | doing : s.programRuns → Does s .doing { s with frames := .poll 0 :: s.frames }
  | executed {index : ℕ} {ret : SqlReturn} {rest : List CallFrame} :
      s.frames = .executing index ret :: rest →
      Does s .callbackReturns
        { s with frames := rest, log := s.log ++ [.returned (ret = .success)] }
  | answered {index : ℕ} {rest : List CallFrame} : s.frames = .polled index :: rest →
      Does s .callbackReturns { s with frames := rest }
  | pollEnd {i : ℕ} {ret : SqlReturn} {rest : List CallFrame} : s.frames = .poll i :: rest →
      handleCount ≤ i → Does s (.work ret) { s with frames := .take :: rest }
  | pollIdle {i : ℕ} {ret : SqlReturn} {rest : List CallFrame} : s.frames = .poll i :: rest →
      i < handleCount → (s.hstmt i).doing = false →
      Does s (.work ret) { s with frames := .poll (i + 1) :: rest }
  | pollBusy {i : ℕ} {ret : SqlReturn} {rest : List CallFrame} : s.frames = .poll i :: rest →
      i < handleCount → (s.hstmt i).doing = true → Does s (.work ret) (s.pollHandle i ret rest)
  | takeEnd {ret : SqlReturn} {rest : List CallFrame} : s.frames = .take :: rest →
      s.callbackList.getCount = 0 ∨ handleCount ≤ s.getCanUseHandleIndex →
      Does s (.work ret) { s with frames := rest }
  | takeAgain {ret : SqlReturn} {rest : List CallFrame} : s.frames = .take :: rest →
      s.callbackList.getCount ≠ 0 → s.callbackList.getHeadValue = .ok none →
      Does s (.work ret) { s with frames := .take :: rest }
  | takeHead {ret : SqlReturn} {rest : List CallFrame} {qc : QueryAndCallback} {s' : HSODBC} :
      s.frames = .take :: rest → s.callbackList.getCount ≠ 0 →
      s.callbackList.getHeadValue = .ok (some qc) → s.getCanUseHandleIndex < handleCount →
      Executes (some qc.number) qc.statement qc.callback s.getCanUseHandleIndex ret
        { s with frames := .remove :: rest } s' →
      Does s (.work ret) s'
  | remove {ret : SqlReturn} {rest : List CallFrame} {b : Bool} {l : HSList QueryAndCallback} :
      s.frames = .remove :: rest → s.callbackList.removeHead = .ok (b, l) →
      Does s (.work ret) { s with callbackList := l, frames := .take :: rest }

theorem takeHead_does {ret : SqlReturn} {rest : List CallFrame} (hf : s.frames = .take :: rest)
    (h : s.takeHead ret rest = .ok s') : Does s (.work ret) s' := by
  simp only [HSODBC.takeHead] at h
  by_cases hc : s.callbackList.getCount = 0
  · rw [if_pos hc] at h
    obtain rfl := Except.ok.inj h
    exact .takeEnd hf (Or.inl hc)
  · rw [if_neg hc] at h
    cases hv : s.callbackList.getHeadValue with
    | error f =>
      rw [hv] at h
      cases h
    | ok v =>
      rw [hv] at h
      cases v with
      | none =>
        obtain rfl := Except.ok.inj h
        exact .takeAgain hf hc hv
      | some qc =>
        simp only [bind, Except.bind, pure, Except.pure] at h
        by_cases hi : s.getCanUseHandleIndex ≥ handleCount
        · rw [if_pos hi] at h
          obtain rfl := Except.ok.inj h
          exact .takeEnd hf (Or.inr hi)
        · rw [if_neg hi] at h
          have hlt := Nat.lt_of_not_le hi
          have hex := executes h
          have hindex : queryIndex { s with frames := .remove :: rest } s.getCanUseHandleIndex =
              s.getCanUseHandleIndex := if_neg (Nat.not_lt.mpr hlt.le)
          rw [hindex] at hex
          exact .takeHead hf hc hv hlt hex

theorem Step.does (h : Step s e s') : Does s e s' := by
  simp only [Step] at h
  cases e with
  | executeQuery statement callback useIndex ret =>
    simp only [next] at h
    split_ifs at h with hrun
    exact .execute hrun (executes (Outcome.eq_ok_of_toOption h))
  | doing =>
    simp only [next] at h
    split_ifs at h with hrun
    obtain rfl := Option.some.inj h
    exact .doing hrun
  | work ret =>
    simp only [next] at h
    split at h
    · rename_i i rest hf
      split_ifs at h with hi hd
      · obtain rfl := Option.some.inj h
        exact .pollEnd hf hi
      · obtain rfl := Option.some.inj h
        exact .pollBusy hf (Nat.lt_of_not_le hi) hd
      · obtain rfl := Option.some.inj h
        exact .pollIdle hf (Nat.lt_of_not_le hi) (Bool.eq_false_iff.mpr hd)
    · rename_i rest hf
      exact takeHead_does hf (Outcome.eq_ok_of_toOption h)
    · rename_i rest hf
      obtain ⟨⟨b, l⟩, hl, rfl⟩ := Option.map_eq_some_iff.mp h
      exact .remove hf (Outcome.eq_ok_of_toOption hl)
    · cases h
  | callbackReturns =>
    simp only [next] at h
    split at h
    · rename_i index ret rest hf
      obtain rfl := Option.some.inj h
      exact .executed hf
    · rename_i index rest hf
      obtain rfl := Option.some.inj h
      exact .answered hf
    · cases h

theorem Executes.list_ok {number : Option ℕ} {statement : String} {callback : HSSqlCallback}
    {index : ℕ} {ret : SqlReturn} (h : Executes number statement callback index ret s s')
    (hl : s.callbackList.Ok) : s'.callbackList.Ok := by
  cases h with
  | queues _ hp =>
    obtain ⟨l, hl', hok, -⟩ := hl.pushValue_spec ⟨callback, statement, s.queued.length⟩
    rw [hp] at hl'
    obtain rfl := Except.ok.inj hl'
    exact hok
  | starts _ _ => exact hl
  | ends _ _ => exact hl

theorem Does.list_ok (h : Does s e s') (hl : s.callbackList.Ok) : s'.callbackList.Ok := by
  cases h with
  | execute _ h => exact h.list_ok hl
  | doing => exact hl
  | executed => exact hl
  | answered => exact hl
  | pollEnd => exact hl
  | pollIdle => exact hl
  | @pollBusy i ret rest =>
    simp only [pollHandle]
    split_ifs <;> exact hl
  | takeEnd => exact hl
  | takeAgain => exact hl
  | takeHead _ _ _ _ h => exact h.list_ok hl
  | @remove ret rest b l _ hr =>
    by_cases hc : s.callbackList.useableCount = 0
    · simp only [HSList.removeHead, if_pos hc, pure, Except.pure] at hr
      obtain ⟨-, rfl⟩ := Prod.mk.inj (Except.ok.inj hr)
      exact hl
    · obtain ⟨l', hl', hok, -⟩ := hl.removeHead_spec hc
      rw [hr] at hl'
      obtain ⟨-, rfl⟩ := Prod.mk.inj (Except.ok.inj hl')
      exact hok

end HSODBC

end HsCommon
