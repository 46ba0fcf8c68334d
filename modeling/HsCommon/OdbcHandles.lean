import HsCommon.OdbcQueue

/-!
# The handles of running callbacks

A handle is given to a callback while its flag is clear: `ExecuteQuery` sets the flag of a statement
only that goes on executing, and `Doing` clears it before it calls back. A query that the callback
issues looks for a handle with a clear flag and may find the one the callback reads its results
from.
-/

namespace HsCommon.HSODBC
open Transition

def DbEvent.handedTo : DbEvent → Option ℕ
  | .handed _ index _ _ _ => some index
  | _ => none

def handles (s : HSODBC) : List ℕ := s.log.filterMap DbEvent.handedTo

def CallFrame.handle : CallFrame → Option ℕ
  | .executing index _ | .polled index => some index
  | .poll _ | .take | .remove => none

def Running (s : HSODBC) (i : ℕ) : Prop := ∃ f ∈ s.frames, CallFrame.handle f = some i

structure Undisturbed (s s' : HSODBC) : Prop where
  statements : ∀ i, s.Running i → s'.handles.count i = s.handles.count i
  callback : ∀ i, s.Running i → (s'.hstmt i).callback = (s.hstmt i).callback
  entries : HSList.Keeps s.callbackList.nodes s'.callbackList.nodes

def PassedOver (s : HSODBC) (i : ℕ) : Prop :=
  (s.hstmt i).doing = true ∨ ∃ j < i, (s.hstmt j).doing = false

/-- A query that is given an index has no callback running on that handle, and one that looks for a
handle, as `Doing` does for an entry of the list, passes over those of the running callbacks. -/
def Elsewhere (s : HSODBC) : DbAct → Prop
  | .executeQuery _ _ useIndex _ => ∀ i, s.Running i →
      if useIndex > handleCount then s.PassedOver i else useIndex ≠ i
  | .work _ => ∀ rest, s.frames = .take :: rest → s.callbackList.getCount ≠ 0 →
      ∀ i, s.Running i → s.PassedOver i
  | .doing | .callbackReturns => True

variable {s s' : HSODBC} {e : DbAct}

theorem getCanUseHandleIndex_eq {i : ℕ} (hi : i < handleCount) :
    s.getCanUseHandleIndex = i ↔
      (s.hstmt i).doing = false ∧ ∀ j < i, (s.hstmt j).doing = true := by
  have hfound : (List.range handleCount).find? (fun i => !(s.hstmt i).doing) = some i ↔
      (s.hstmt i).doing = false ∧ ∀ j < i, (s.hstmt j).doing = true := by
    rw [List.find?_range_eq_some]
    simp only [Bool.not_eq_true', Bool.not_not, List.mem_range, hi, true_and]
  rw [← hfound, getCanUseHandleIndex]
  cases (List.range handleCount).find? fun i => !(s.hstmt i).doing with
  | none =>
    rw [Option.getD_none]
    have hbound : handleCount + 100 ≠ i := by omega
    exact iff_of_false hbound (by simp)
  | some j => rw [Option.getD_some, Option.some.injEq]

theorem passedOver_iff {i : ℕ} (hi : i < handleCount) :
    s.PassedOver i ↔ s.getCanUseHandleIndex ≠ i := by
  rw [Ne, getCanUseHandleIndex_eq hi, not_and_or, Bool.not_eq_false, PassedOver]
  simp only [not_forall, Bool.not_eq_true, exists_prop]

theorem queryIndex_ne {useIndex i : ℕ} (hi : i < handleCount) :
    (if useIndex > handleCount then s.PassedOver i else useIndex ≠ i) ↔
      s.queryIndex useIndex ≠ i := by
  rw [queryIndex]
  split_ifs with hdefault
  · exact passedOver_iff hi
  · exact Iff.rfl

inductive HandsStep (s : HSODBC) (e : DbAct) (s' : HSODBC) : Prop where
  | none : Elsewhere s e → s'.handles = s.handles →
      (∀ i, (s'.hstmt i).callback = (s.hstmt i).callback) → HandsStep s e s'
  | hands {index : ℕ} : (Elsewhere s e ↔ ¬ s.Running index) →
      s'.handles = s.handles ++ [index] → (∀ i ≠ index, s'.hstmt i = s.hstmt i) →
      HandsStep s e s'

def InRange (s : HSODBC) : Prop := ∀ i, s.Running i → i < handleCount

theorem handles_append {hstmt : ℕ → DataHandle} {l : HSList QueryAndCallback}
    {frames : List CallFrame} (events : List DbEvent) :
    handles ⟨hstmt, l, frames, s.log ++ events⟩ =
      s.handles ++ events.filterMap DbEvent.handedTo :=
  List.filterMap_append

theorem handles_same {hstmt : ℕ → DataHandle} {l : HSList QueryAndCallback}
    {frames : List CallFrame} {events : List DbEvent}
    (h : events.filterMap DbEvent.handedTo = []) :
    handles ⟨hstmt, l, frames, s.log ++ events⟩ = s.handles := by
  rw [handles_append, h, List.append_nil]

theorem Executes.handsStep {number : Option ℕ} {statement : String} {callback : HSSqlCallback}
    {index : ℕ} {ret : SqlReturn} {frames : List CallFrame}
    (h : Executes number statement callback index ret { s with frames := frames } s')
    (hin : s.InRange) (hels : Elsewhere s e ↔ ∀ i, s.Running i → index ≠ i) :
    HandsStep s e s' := by
  have hels' : Elsewhere s e ↔ ¬ s.Running index := by
    rw [hels]
    exact ⟨fun h hrun => h index hrun rfl, fun h i hrun hi => h (hi ▸ hrun)⟩
  cases h with
  | queues hge =>
    refine .none (hels'.mpr fun hrun => ?_) (handles_same rfl) fun _ => rfl
    exact absurd (hin index hrun) (Nat.not_lt.mpr hge)
  | starts =>
    exact .hands hels' (handles_append _) fun i hi => Function.update_of_ne hi _ _
  | ends => exact .hands hels' (handles_append _) fun _ _ => rfl

theorem elsewhere_work (h : ∀ rest, s.frames ≠ .take :: rest) (ret : SqlReturn) :
    Elsewhere s (.work ret) := fun rest hf => absurd hf (h rest)

theorem Does.handsStep (h : Does s e s') (hl : s.callbackList.Ok) (hin : s.InRange) :
    HandsStep s e s' := by
  cases h with
  | @execute statement callback useIndex ret _ _ h =>
    refine @Executes.handsStep s s' _ _ _ _ _ _ s.frames h hin ?_
    exact forall₂_congr fun i hrun => queryIndex_ne (hin i hrun)
  | doing => exact .none trivial rfl fun _ => rfl
  | executed => exact .none trivial (handles_same rfl) fun _ => rfl
  | answered => exact .none trivial rfl fun _ => rfl
  | pollEnd hf => exact .none (elsewhere_work (by simp [hf]) _) rfl fun _ => rfl
  | pollIdle hf => exact .none (elsewhere_work (by simp [hf]) _) rfl fun _ => rfl
  | @pollBusy i ret _ hf =>
    have hels := @elsewhere_work s (by simp [hf]) ret
    have hcallback : ∀ j, (Function.update s.hstmt i { s.hstmt i with doing := false } j).callback =
        (s.hstmt j).callback := by
      intro j
      by_cases hj : j = i
      · rw [hj, Function.update_self]
      · rw [Function.update_of_ne hj]
    simp only [pollHandle]
    split_ifs
    · exact .none hels (handles_same rfl) fun _ => rfl
    · exact .none hels (handles_same rfl) hcallback
    · exact .none hels (handles_same rfl) hcallback
  | takeEnd hf hend =>
    refine .none (fun rest _ hc i hrun => ?_) rfl fun _ => rfl
    have hfull := hend.resolve_left hc
    rw [passedOver_iff (hin i hrun)]
    exact ((hin i hrun).trans_le hfull).ne'
  | takeAgain _ hc hv =>
    obtain ⟨v, hv'⟩ := hl.getHeadValue_eq hc
    cases hv.symm.trans hv'
  | takeHead hf hc _ hi h =>
    refine h.handsStep hin ⟨fun hels i hrun => ?_, fun hne rest _ _ i hrun => ?_⟩
    · exact (passedOver_iff (hin i hrun)).mp (hels _ hf hc i hrun)
    · exact (passedOver_iff (hin i hrun)).mpr (hne i hrun)
  | remove hf => exact .none (elsewhere_work (by simp [hf]) _) rfl fun _ => rfl

theorem Executes.frames {number : Option ℕ} {statement : String} {callback : HSSqlCallback}
    {index : ℕ} {ret : SqlReturn} (h : Executes number statement callback index ret s s')
    {f : CallFrame} (hf : f ∈ s'.frames) :
    f ∈ s.frames ∨ ∀ i, CallFrame.handle f = some i → i < handleCount := by
  cases h with
  | queues => exact Or.inl hf
  | starts => exact Or.inl hf
  | ends hlt =>
    rcases List.mem_cons.mp hf with rfl | hold
    · exact Or.inr fun i hi => Option.some.inj hi ▸ hlt
    · exact Or.inl hold

theorem Does.frames (h : Does s e s') {f : CallFrame} (hf : f ∈ s'.frames) :
    f ∈ s.frames ∨ ∀ i, CallFrame.handle f = some i → i < handleCount := by
  have hbelow : ∀ {g : CallFrame} {rest : List CallFrame}, s.frames = g :: rest → f ∈ rest →
      f ∈ s.frames := fun hs hf => hs ▸ List.mem_cons_of_mem _ hf
  have hplace : ∀ {g g' : CallFrame} {rest : List CallFrame}, s.frames = g :: rest →
      CallFrame.handle g' = none → f ∈ g' :: rest →
      f ∈ s.frames ∨ ∀ i, CallFrame.handle f = some i → i < handleCount := by
    intro g g' rest hs hg' hf
    rcases List.mem_cons.mp hf with rfl | hrest
    · exact Or.inr fun i hi => nomatch hg'.symm.trans hi
    · exact Or.inl (hbelow hs hrest)
  cases h with
  | execute _ h => exact h.frames hf
  | doing =>
    rcases List.mem_cons.mp hf with rfl | hold
    · exact Or.inr nofun
    · exact Or.inl hold
  | executed hs => exact Or.inl (hbelow hs hf)
  | answered hs => exact Or.inl (hbelow hs hf)
  | pollEnd hs => exact hplace hs rfl hf
  | pollIdle hs => exact hplace hs rfl hf
  | @pollBusy i ret rest hs hi =>
    simp only [pollHandle] at hf
    split_ifs at hf
    · exact hplace hs rfl hf
    · exact hplace hs rfl hf
    · rcases List.mem_cons.mp hf with rfl | hf
      · exact Or.inr fun j hj => Option.some.inj hj ▸ hi
      · exact hplace hs rfl hf
  | takeEnd hs => exact Or.inl (hbelow hs hf)
  | takeAgain hs => exact hplace hs rfl hf
  | takeHead hs _ _ _ h =>
    rcases h.frames hf with hold | hnew
    · exact hplace hs rfl hold
    · exact Or.inr hnew
  | remove hs => exact hplace hs rfl hf

theorem Does.inRange (h : Does s e s') (hin : s.InRange) : s'.InRange := by
  rintro i ⟨f, hf, hi⟩
  rcases h.frames hf with hold | hnew
  · exact hin i ⟨f, hold, hi⟩
  · exact hnew i hi

theorem Executes.entries {number : Option ℕ} {statement : String} {callback : HSSqlCallback}
    {index : ℕ} {ret : SqlReturn} (h : Executes number statement callback index ret s s')
    (hl : s.callbackList.Ok) : HSList.Keeps s.callbackList.nodes s'.callbackList.nodes := by
  cases h with
  | queues _ hpush => exact hl.pushValue_keeps hpush
  | starts => exact .refl _
  | ends => exact .refl _

theorem Does.entries (h : Does s e s') (hl : s.callbackList.Ok) :
    HSList.Keeps s.callbackList.nodes s'.callbackList.nodes := by
  cases h with
  | execute _ h => exact h.entries hl
  | doing => exact .refl _
  | executed => exact .refl _
  | answered => exact .refl _
  | pollEnd => exact .refl _
  | pollIdle => exact .refl _
  | pollBusy =>
    simp only [pollHandle]
    split_ifs <;> exact .refl _
  | takeEnd => exact .refl _
  | takeAgain => exact .refl _
  | takeHead _ _ _ _ h => exact h.entries hl
  | remove _ hremove => exact hl.removeHead_keeps hremove

theorem HandsStep.undisturbed_iff (h : HandsStep s e s')
    (hentries : HSList.Keeps s.callbackList.nodes s'.callbackList.nodes) :
    Undisturbed s s' ↔ Elsewhere s e := by
  cases h with
  | none hels hhandles hcallback =>
    exact iff_of_true ⟨fun _ _ => by rw [hhandles], fun i _ => hcallback i, hentries⟩ hels
  | @hands index hels hhandles hhstmt =>
    rw [hels]
    constructor
    · intro hund hrun
      have hcount := hund.statements index hrun
      rw [hhandles, List.count_append, List.count_singleton_self] at hcount
      omega
    · intro hrun
      have hother : ∀ i, s.Running i → i ≠ index := fun i hi hsame => hrun (hsame ▸ hi)
      refine ⟨fun i hi => ?_, fun i hi => by rw [hhstmt i (hother i hi)], hentries⟩
      rw [hhandles, List.count_append, List.count_singleton, Nat.add_eq_left]
      exact if_neg (by simpa using (hother i hi).symm)

/-- The runs that leave running callbacks their handle and their data are those in which every query
goes elsewhere. -/
theorem callbacks_undisturbed (cb : ℕ → HSSqlCallback) (es : List DbAct) (s : HSODBC) :
    Run (fun s e s' => Step s e s' ∧ Undisturbed s s') (init cb) es s ↔
      Run (Guarded Elsewhere Step) (init cb) es s := by
  apply Run.guarded_iff (I := fun s => s.callbackList.Ok ∧ s.InRange)
  · exact ⟨HSList.new_ok, fun i ⟨f, hf, _⟩ => nomatch hf⟩
  · intro s e s' ⟨hl, hin⟩ hs
    have hdoes := Step.does hs
    exact ⟨(hdoes.handsStep hl hin).undisturbed_iff (hdoes.entries hl),
      fun _ => ⟨hdoes.list_ok hl, hdoes.inRange hin⟩⟩

def otherCallback : HSSqlCallback := ⟨fun _ => 1, "", 1⟩

/-- The callback of a statement that `Doing` has polled issues a query. It is executed on the handle
of the callback, and its callback takes the place of the one that is running. -/
theorem callback_overwritten :
    ∃ s s', Run Step (init fun _ => noCallback)
        [query "a" .stillExecuting, .doing, .work .success] s ∧
      Step s (.executeQuery "b" otherCallback defaultUseIndex .stillExecuting) s' ∧
      s.Running 0 ∧ s'.handles = s.handles ++ [0] ∧ (s.hstmt 0).callback = noCallback ∧
      (s'.hstmt 0).callback = otherCallback ∧ ¬ Undisturbed s s' := by
  have hrun : ([query "a" .stillExecuting, .doing, .work .success].foldlM next
      (init fun _ => noCallback)).map (fun (s : HSODBC) => ((s.frames, (s.hstmt 0).callback),
        (s.handles, (s.next (.executeQuery "b" otherCallback defaultUseIndex
          .stillExecuting)).map fun (s' : HSODBC) => (s'.handles, (s'.hstmt 0).callback)))) =
      some (([.polled 0, .poll 1], noCallback), ([0], some ([0, 0], otherCallback))) := by
    decide +kernel
  obtain ⟨s, hs, hobs⟩ := @Run.of_observed _ _ Step _ _ next (fun _ _ _ h => h) _ _ _ hrun
  obtain ⟨hbefore, hobs⟩ := Prod.mk.inj hobs
  obtain ⟨hframes, hcallback⟩ := Prod.mk.inj hbefore
  obtain ⟨hhandles, hobs⟩ := Prod.mk.inj hobs
  obtain ⟨s', hs', hobs⟩ := Option.map_eq_some_iff.mp hobs
  obtain ⟨hhandles', hcallback'⟩ := Prod.mk.inj hobs
  have hrunning : s.Running 0 := ⟨.polled 0, hframes ▸ List.mem_cons_self, rfl⟩
  refine ⟨s, s', hs, hs', hrunning, by rw [hhandles', hhandles]; rfl, hcallback, hcallback', ?_⟩
  intro hund
  exact absurd (hcallback'.symm.trans ((hund.callback 0 hrunning).trans hcallback)) (by decide)

end HsCommon.HSODBC
