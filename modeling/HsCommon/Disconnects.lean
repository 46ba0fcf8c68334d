import HsCommon.SessionHandlers
import HsCommon.SessionManager

/-!
# How often a disconnection is reported

Read errors and write errors both report the disconnection and clear the session,
and nothing tells one path that the other has done so. A decode failure clears
without a report. So the reports are as many as the completions with an error, and
closing the socket makes the operation that is still outstanding one of them.
-/

namespace HsCommon.HSSession
open Transition Outcome

variable {w : ULongWidth} {s s' : HSSession} {fuel : ℕ}

def Closing : SessionEvent → Prop
  | .send _ => False
  | .readDone _ result => Fails result
  | .writeDone _ result => Fails result

instance {α : Type} : DecidablePred (Fails (α := α))
  | .success _ => isFalse id
  | .failure errorValue => inferInstanceAs (Decidable (handleError errorValue ≠ 0))

instance : DecidablePred Closing
  | .send _ => isFalse id
  | .readDone _ result => inferInstanceAs (Decidable (Fails result))
  | .writeDone _ result => inferInstanceAs (Decidable (Fails result))

structure Told (n : ℕ) (s : HSSession) : Prop where
  eventHandler : s.eventHandler.isSome
  onConnect : s.calls.count .onConnect = 1
  onDisconnect : s.calls.count .onDisconnect = n

theorem Told.of_calls {n : ℕ} (h : Told n s) (hh : s'.eventHandler = s.eventHandler)
    {cs : List Call} (hcalls : s'.calls = s.calls ++ cs) (hconn : cs.count .onConnect = 0) :
    Told (n + cs.count .onDisconnect) s' where
  eventHandler := hh ▸ h.eventHandler
  onConnect := by rw [hcalls, List.count_append, h.onConnect, hconn]
  onDisconnect := by rw [hcalls, List.count_append, h.onDisconnect]

theorem Told.same {n : ℕ} (h : Told n s) (hh : s'.eventHandler = s.eventHandler)
    (hcalls : s'.calls = s.calls) : Told n s' :=
  Told.of_calls h hh (show s'.calls = s.calls ++ [] from hcalls.trans (List.append_nil _).symm) rfl

theorem Told.dropped {n : ℕ} (h : Told n s) (hd : Dropped s s') : Told (n + 1) s' :=
  @Told.of_calls _ _ _ h hd.eventHandler [.onDisconnect] (hd.calls h.eventHandler) rfl

theorem count_onReceive {c : Call} (hc : ∀ v, c ≠ .onReceive v) (vs : List (List UInt8)) :
    (vs.map .onReceive).count c = 0 := by
  refine List.count_eq_zero.mpr fun hmem => ?_
  obtain ⟨v, -, hv⟩ := List.mem_map.mp hmem
  exact hc v hv.symm

theorem Told.received {n : ℕ} (h : Told n s) (hh : s'.eventHandler = s.eventHandler)
    {vs : List (List UInt8)} (hcalls : s'.calls = s.calls ++ vs.map .onReceive) : Told n s' := by
  have hmore := h.of_calls hh hcalls (count_onReceive (by simp) vs)
  rwa [count_onReceive (by simp), Nat.add_zero] at hmore

theorem Told.writeDone {n : ℕ} (h : Told n s) (result : Completion ℕ) :
    Ends (Told (n + if Fails result then 1 else 0)) (fun _ => True) (s.writeResult w result) := by
  refine (writeResult_cases s result).mono ?_
  intro s' hs'
  obtain ⟨hside, hdrop⟩ := hs'
  split_ifs with hf
  · exact h.dropped (hdrop hf)
  · exact h.same (hside hf).eventHandler (hside hf).calls

theorem Told.readDone {n : ℕ} (h : Told n s) (m : Option ℕ) (result : Completion ℕ) :
    Ends (fun r => Told (n + if Fails result then 1 else 0) r.2) (fun _ => True)
      (s.handleRead w fuel m result) := by
  cases result with
  | success k =>
    by_cases hk : k = 0
    · subst hk
      exact h
    · refine (handleRead_success_around fuel m s hk).mono ?_
      intro r hr
      obtain ⟨⟨vs, hcalls⟩, hh, -⟩ := hr
      exact h.received hh hcalls
  | failure v =>
    refine (handleRead_failure fuel m s v).mono ?_
    intro r hr
    obtain ⟨-, hagain, hdrop⟩ := hr
    split_ifs with hf
    · exact h.dropped (hdrop hf)
    · rw [hagain (not_not.mp hf)]
      exact h.same rfl rfl

theorem Told.exec {n : ℕ} (h : Told n s) {e : SessionEvent} (hposs : s.Possible e)
    (m : Option ℕ) :
    Ends (fun r => Told (n + if Closing e then 1 else 0) r.2) (fun _ => True)
      (s.exec w fuel m e) := by
  cases e with
  | send data =>
    refine (send_sendSide s data.val).bind fun r hr => ?_
    exact h.same hr.eventHandler hr.calls
  | writeDone k result =>
    obtain ⟨op, hop⟩ : ∃ op, s.writes[k]? = some op := by
      cases result with
      | success n => exact ⟨_, hposs.choose_spec.1⟩
      | failure v => exact ⟨_, List.getElem?_eq_getElem hposs⟩
    simp only [HSSession.exec, hop]
    have h₁ : Told n ({ s with writes := s.writes.eraseIdx k }.accept op result) := by
      cases result <;> exact h.same rfl rfl
    refine (h₁.writeDone result).bind fun s' hs' => ?_
    exact hs'
  | readDone k result =>
    obtain ⟨op, hop⟩ : ∃ op, s.reads[k]? = some op := by
      cases result with
      | success chunk => exact ⟨_, hposs.choose_spec.1⟩
      | failure v => exact ⟨_, List.getElem?_eq_getElem hposs⟩
    simp only [HSSession.exec, hop]
    cases result with
    | success chunk =>
      have h₁ : Told n ({ s with reads := s.reads.eraseIdx k }.deliver op (.success chunk)) :=
        h.same rfl rfl
      exact h₁.readDone m (.success chunk.length)
    | failure v =>
      have h₁ : Told n { s with reads := s.reads.eraseIdx k } := h.same rfl rfl
      exact h₁.readDone m (.failure v)

theorem told_accepted {handler : EventHandler} {closes : ℕ} {s₀ : HSSession} (hs : s.calls = [])
    (h : s.acceptedBy w (some handler) closes = .ok s₀) : Told 0 s₀ := by
  have hends : Ends (Told 0) (fun _ => True) (s.acceptedBy w (some handler) closes) := by
    rw [acceptedBy, connected]
    refine Ends.bind (P := Told 0) ?_ fun s₁ hs₁ => hs₁.same rfl rfl
    refine (call_around _ _).bind ?_
    intro s₁ hs₁
    obtain ⟨haround, -, hcalls, -⟩ := hs₁
    have hall : s₁.calls = [.onConnect] := by
      rw [hcalls rfl, hs, List.nil_append]
    refine ⟨?_, ?_, ?_⟩ <;> dsimp only
    · rw [haround.eventHandler]
      rfl
    · rw [hall]
      rfl
    · rw [hall]
      rfl
  exact hends.result h

/-- The handler of an accepted session is told of one connection, and of a disconnection by every
completion with an error: of exactly one if exactly one completion of the run has an error. -/
theorem disconnects_counted {recvLen sendLen : ℕ} {recvMem sendMem : ℕ → UInt8}
    {handler : EventHandler} {s₀ : HSSession} {es : List SessionEvent}
    (haccept : (new recvLen sendLen recvMem sendMem).acceptedBy w (some handler) 0 = .ok s₀)
    (h : Run (Step w fuel) s₀ es s) :
    s.calls.count .onConnect = 1 ∧ s.calls.count .onDisconnect = es.countP Closing ∧
      (s.calls.count .onDisconnect = s.calls.count .onConnect ↔ es.countP Closing = 1) := by
  have htold : Told (es.countP Closing) s := by
    refine h.history (P := fun es s => Told (es.countP Closing) s) (told_accepted rfl haccept) ?_
    intro es s e s' hs ⟨hposs, m, m', hexec⟩
    have hnext := (hs.exec hposs m).result hexec
    simpa only [List.countP_append, List.countP_singleton, decide_eq_true_eq] using hnext
  refine ⟨htold.onConnect, htold.onDisconnect, ?_⟩
  rw [htold.onConnect, htold.onDisconnect]

def acceptedPassive : HSSession :=
  { opened 64 64 (fun _ => 0) (fun _ => 0) (some fun _ => []) with calls := [.onConnect] }.start

theorem accepted_passive :
    (new 64 64 (fun _ => 0) fun _ => 0).acceptedBy .eight (some fun _ => []) 0 =
      .ok acceptedPassive := rfl

theorem disconnects_counted_readError :
    ∃ s, Run (Step .eight 0) acceptedPassive [.readDone 0 (.failure 10054)] s ∧
      s.calls.count .onDisconnect = s.calls.count .onConnect := by
  obtain ⟨s, hrun, -⟩ := @run_of_foldlM .eight 0 (fun _ _ => True) _ _ acceptedPassive
    [.readDone 0 (.failure 10054)] (fun _ => ()) () (by decide +kernel)
  exact ⟨s, hrun.of_guarded,
    (disconnects_counted accepted_passive hrun.of_guarded).2.2.mpr (by decide)⟩

/-- A read error closes the socket, and the write that this aborts reports the disconnection once
more. -/
theorem readError_reportedTwice :
    ∃ s, Run (Step .eight 0) acceptedPassive
        [.send ⟨[1], by decide⟩, .readDone 0 (.failure 10054), .writeDone 0 (.failure 995)] s ∧
      0 < s.closes ∧ s.reads.length + s.writes.length = 0 ∧
      s.calls.count .onConnect = 1 ∧ s.calls.count .onDisconnect = 2 := by
  obtain ⟨s, hrun, hs⟩ := @run_of_foldlM .eight 0 (fun _ _ => True) _ _ acceptedPassive
    [.send ⟨[1], by decide⟩, .readDone 0 (.failure 10054), .writeDone 0 (.failure 995)]
    (fun s => (decide (0 < s.closes), s.reads.length + s.writes.length,
      s.calls.count .onConnect, s.calls.count .onDisconnect)) (true, 0, 1, 2) (by decide +kernel)
  obtain ⟨hcl, hs⟩ := Prod.mk.inj hs
  obtain ⟨hops, hs⟩ := Prod.mk.inj hs
  obtain ⟨hconn, hdis⟩ := Prod.mk.inj hs
  exact ⟨s, hrun.of_guarded, of_decide_eq_true hcl, hops, hconn, hdis⟩

end HsCommon.HSSession
