import HsCommon.Session
import HsCommon.Library.Outcome

/-!
# What runs of the handlers leave alone

An event handler may send and clear from inside its calls, as often as it likes.
Sends touch the send side only; `clear` counts a close, empties the buffers and
ends the connection. So whatever the handlers do, no read is started or forgotten
by them, and a connection does not come back.
-/

namespace HsCommon.HSSession
open Outcome

variable {w : ULongWidth} {s s₁ s₂ : HSSession}

structure SendSide (s s' : HSSession) : Prop where
  recvBuffer : s'.recvBuffer = s.recvBuffer
  reads : s'.reads = s.reads
  calls : s'.calls = s.calls
  eventHandler : s'.eventHandler = s.eventHandler
  closes : s'.closes = s.closes
  isConnected : s'.isConnected = s.isConnected

theorem SendSide.idle (h : SendSide s s₁) : SendSide s { s₁ with handleSending := false } :=
  ⟨h.recvBuffer, h.reads, h.calls, h.eventHandler, h.closes, h.isConnected⟩

theorem SendSide.of_sendBuffer {b : HSSendBuffer} (h : SendSide { s with sendBuffer := b } s₁) :
    SendSide s s₁ :=
  ⟨h.recvBuffer, h.reads, h.calls, h.eventHandler, h.closes, h.isConnected⟩

theorem handleWrite_sendSide (s : HSSession) :
    Ends (SendSide s) (fun _ => True) s.handleWrite := by
  rw [handleWrite]
  refine Ends.bind (P := fun _ => True) ?_ fun canSend _ => ?_
  · rw [HSSendBuffer.getCanSendSize]
    split_ifs <;> trivial
  · split_ifs <;> exact ⟨rfl, rfl, rfl, rfl, rfl, rfl⟩

theorem send_sendSide (s : HSSession) (data : List UInt8) :
    Ends (fun r => SendSide s r.2) (fun _ => True) (s.send w data) := by
  rw [send]
  refine Ends.bind (P := fun _ => True) ?_ fun encoded _ => ?_
  · cases encodePacket w data s.sendBuffer.buffer s.sendBuffer.inOffset
      s.sendBuffer.getLeftInSize <;> trivial
  · cases encoded with
    | tooLong => exact ⟨rfl, rfl, rfl, rfl, rfl, rfl⟩
    | noRoom => exact (handleWrite_sendSide s).bind fun s' hs' => hs'
    | done outData outSize =>
      exact (handleWrite_sendSide (s.countEncoded outData outSize)).bind fun s' hs' =>
        ⟨hs'.recvBuffer, hs'.reads, hs'.calls, hs'.eventHandler, hs'.closes, hs'.isConnected⟩

structure Around (s s' : HSSession) : Prop where
  reads : s'.reads = s.reads
  eventHandler : s'.eventHandler = s.eventHandler
  closes : s.closes ≤ s'.closes
  isConnected : s'.isConnected = true → s.isConnected = true

theorem Around.refl (s : HSSession) : Around s s := ⟨rfl, rfl, le_rfl, id⟩

theorem Around.trans (h : Around s s₁) (h' : Around s₁ s₂) : Around s s₂ :=
  ⟨h'.reads.trans h.reads, h'.eventHandler.trans h.eventHandler, h.closes.trans h'.closes,
    fun hc => h.isConnected (h'.isConnected hc)⟩

theorem SendSide.around (h : SendSide s s₁) : Around s s₁ :=
  ⟨h.reads, h.eventHandler, h.closes.ge, fun hc => h.isConnected ▸ hc⟩

theorem around_clear (s : HSSession) : Around s s.clear :=
  ⟨rfl, rfl, Nat.le_succ _, fun hc => by cases hc⟩

def Received (b b' : HSRecvBuffer) : Prop :=
  b' = b ∨ (b'.inOffset = 0 ∧ b'.inUsedOffset = 0) ∧ b'.length = b.length ∧
    b'.usedOutReset = true

theorem received_clear (b : HSRecvBuffer) : Received b (b.clear false) :=
  Or.inr ⟨⟨rfl, rfl⟩, rfl, rfl⟩

theorem Received.trans {b b₁ b₂ : HSRecvBuffer} (h : Received b b₁) (h' : Received b₁ b₂) :
    Received b b₂ := by
  rcases h' with rfl | ⟨hin, hlen, hreset⟩
  · exact h
  · rcases h with rfl | ⟨-, hlen', -⟩
    · exact Or.inr ⟨hin, hlen, hreset⟩
    · exact Or.inr ⟨hin, hlen.trans hlen', hreset⟩

theorem runAction_around (s : HSSession) (a : Action) :
    Ends (fun s' => Around s s' ∧ Received s.recvBuffer s'.recvBuffer ∧ s'.calls = s.calls)
      (fun _ => True) (runAction w s a) := by
  cases a with
  | send data =>
    exact (send_sendSide s data.val).bind fun r hr => ⟨hr.around, Or.inl hr.recvBuffer, hr.calls⟩
  | clear => exact ⟨around_clear s, received_clear _, rfl⟩

theorem call_around (s : HSSession) (c : Call) :
    Ends (fun s' => Around s s' ∧ Received s.recvBuffer s'.recvBuffer ∧
        (s.eventHandler.isSome → s'.calls = s.calls ++ [c]) ∧
        (s.eventHandler = none → s'.calls = s.calls))
      (fun _ => True) (s.call w c) := by
  rw [call]
  split
  · rename_i hnone
    exact ⟨.refl s, Or.inl rfl, fun hsome => by simp [hnone] at hsome, fun _ => rfl⟩
  · rename_i handler hsome
    have hactions : Ends (fun s' => Around s s' ∧ Received s.recvBuffer s'.recvBuffer ∧
        s'.calls = s.calls ++ [c]) (fun _ => True)
        ((handler (s.calls ++ [c])).foldlM (runAction w) { s with calls := s.calls ++ [c] }) := by
      refine Ends.foldlM ?_ ⟨⟨rfl, rfl, le_rfl, id⟩, Or.inl rfl, rfl⟩
      rintro s₁ a - ⟨haround, hrecv, hcalls⟩
      refine (runAction_around s₁ a).mono ?_
      intro s₂ hs₂
      obtain ⟨haround', hrecv', hcalls'⟩ := hs₂
      exact ⟨haround.trans haround', hrecv.trans hrecv', hcalls'.trans hcalls⟩
    refine hactions.mono ?_
    intro s' hs'
    obtain ⟨haround, hrecv, hcalls⟩ := hs'
    exact ⟨haround, hrecv, fun _ => hcalls, fun hnone => by rw [hsome] at hnone; cases hnone⟩

theorem connected_around (s : HSSession) :
    Ends (fun s' => s'.isConnected = true ∧ s'.reads = s.reads ∧
        (s.eventHandler.isSome → s'.calls = s.calls ++ [.onConnect]))
      (fun _ => True) (s.connected w) := by
  rw [connected]
  refine (call_around s .onConnect).bind ?_
  intro s' hs'
  obtain ⟨haround, -, hcalls, -⟩ := hs'
  exact ⟨rfl, haround.reads, hcalls⟩

structure Stable (w : ULongWidth) (F : Fault → Prop) (P : HSSession → Prop) : Prop where
  frame : ∀ s s' : HSSession, P s → s'.sendBuffer = s.sendBuffer → s'.writes = s.writes →
    s'.handleSending = s.handleSending → s'.closes = s.closes → P s'
  send : ∀ s (data : Payload), P s → Ends (fun r => P r.2) F (s.send w data.val)
  clear : ∀ s, P s → P s.clear

variable {P : HSSession → Prop} {F : Fault → Prop}

theorem Stable.runAction (hP : Stable w F P) (h : P s) (a : Action) :
    Ends P F (runAction w s a) := by
  cases a with
  | send data => exact (hP.send s data h).bind fun r hr => hr
  | clear => exact hP.clear s h

theorem Stable.call (hP : Stable w F P) (h : P s) (c : Call) : Ends P F (s.call w c) := by
  rw [HSSession.call]
  split
  · exact h
  · refine Ends.foldlM (fun s a _ hs => hP.runAction hs a) ?_
    exact hP.frame s _ h rfl rfl rfl rfl

theorem Stable.decodeLoop (hP : Stable w F P) (hF : ∀ f, f ≠ .assertFailed → F f) {fuel : ℕ}
    (h : P s) :
    Ends (fun r => P r.2) F (decodeLoop w fuel s) := by
  induction fuel generalizing s with
  | zero => exact hF _ (by decide)
  | succ fuel ih =>
    rw [HSSession.decodeLoop, HSRecvBuffer.decode]
    split_ifs
    · exact hF _ (by decide)
    · simp only [bind, Except.bind]
      split
      · exact h
      · exact hP.clear s h
      · refine Ends.bind (hP.call ?_ _) fun s₁ h₁ => ?_
        · exact hP.frame s _ h rfl rfl rfl rfl
        split_ifs
        · exact hP.frame s₁ _ h₁ rfl rfl rfl rfl
        · exact ih (hP.frame s₁ _ h₁ rfl rfl rfl rfl)

theorem Stable.handleRead (hP : Stable w F P) (hF : ∀ f, f ≠ .assertFailed → F f) {fuel : ℕ}
    {m : Option ℕ} (h : P s) (r : Completion ℕ) :
    Ends (fun r => P r.2) F (s.handleRead w fuel m r) := by
  cases r with
  | success n =>
    simp only [HSSession.handleRead]
    split_ifs
    · exact h
    · refine Ends.bind (hP.decodeLoop hF ?_) ?_
      · exact hP.frame s _ h rfl rfl rfl rfl
      rintro ⟨e, s₁⟩ h₁
      cases e with
      | rejected => exact h₁
      | emptied => exact hP.frame s₁ _ h₁ rfl rfl rfl rfl
      | waiting =>
        dsimp only
        split_ifs <;> exact hP.frame s₁ _ h₁ rfl rfl rfl rfl
  | failure v =>
    simp only [HSSession.handleRead]
    split_ifs
    · exact hP.frame s _ h rfl rfl rfl rfl
    · exact (hP.call h _).bind fun s₁ h₁ => hP.clear s₁ h₁

theorem Stable.exec (hP : Stable w F P) (hF : ∀ f, f ≠ .assertFailed → F f) {fuel : ℕ}
    {m : Option ℕ}
    (h : P s) {e : SessionEvent} (he : ∀ k r, e ≠ .writeDone k r) :
    Ends (fun r => P r.2) F (s.exec w fuel m e) := by
  cases e with
  | send data => exact (hP.send s data h).bind fun r hr => hr
  | writeDone k r => exact absurd rfl (he k r)
  | readDone k r =>
    simp only [HSSession.exec]
    split
    · exact h
    · refine hP.handleRead hF ?_ _
      cases r <;> exact hP.frame s _ h rfl rfl rfl rfl

theorem Stable.writeResult_failure (hP : Stable w F P) (h : P s) {v : ℤ} (hv : v ≠ 10035) :
    Ends P F (s.writeResult w (.failure v)) := by
  have herr : handleError v ≠ 0 := by
    rw [handleError, if_neg hv]
    decide
  simp only [writeResult, if_neg herr]
  exact (hP.call h _).bind fun s₁ h₁ => hP.clear s₁ h₁

/-- The completion reports an error on which its handler closes the session. -/
def Fails {α : Type} : Completion α → Prop
  | .success _ => False
  | .failure errorValue => handleError errorValue ≠ 0

structure Dropped (s s' : HSSession) : Prop where
  reads : s'.reads = s.reads
  eventHandler : s'.eventHandler = s.eventHandler
  closes : s.closes < s'.closes
  isConnected : s'.isConnected = false
  received : Received s.recvBuffer s'.recvBuffer
  calls : s.eventHandler.isSome → s'.calls = s.calls ++ [.onDisconnect]

theorem drop_dropped (s : HSSession) :
    Ends (fun s' => Dropped s s'.clear) (fun _ => True) (s.call w .onDisconnect) := by
  refine (call_around s .onDisconnect).mono ?_
  rintro s' ⟨haround, hrecv, hcalls, -⟩
  exact ⟨haround.reads, haround.eventHandler, Nat.lt_succ_of_le haround.closes, rfl,
    hrecv.trans (received_clear _), hcalls⟩

theorem writeResult_cases (s : HSSession) (result : Completion ℕ) :
    Ends (fun s' => (¬ Fails result → SendSide s s') ∧ (Fails result → Dropped s s'))
      (fun _ => True) (s.writeResult w result) := by
  cases result with
  | success n =>
    have hends : Ends (SendSide s) (fun _ => True) (s.writeResult w (.success n)) := by
      simp only [writeResult]
      split_ifs
      · exact ⟨rfl, rfl, rfl, rfl, rfl, rfl⟩
      · refine Ends.bind (P := fun _ => True) ?_ fun canSend _ => ?_
        · rw [HSSendBuffer.getCanSendSize]
          split_ifs <;> trivial
        · split_ifs
          · refine (handleWrite_sendSide _).bind fun s' hs' => ?_
            exact hs'.of_sendBuffer.idle
          · exact ⟨rfl, rfl, rfl, rfl, rfl, rfl⟩
    exact hends.mono fun s' hs' => ⟨fun _ => hs', fun hf => hf.elim⟩
  | failure v =>
    simp only [writeResult]
    split_ifs with hv
    · have hends : Ends (SendSide s) (fun _ => True) (do
          let s' ← s.handleWrite
          return { s' with handleSending := false }) := by
        refine (handleWrite_sendSide s).bind fun s' hs' => ?_
        exact hs'.idle
      exact hends.mono fun s' hs' => ⟨fun _ => hs', fun hf => absurd hv hf⟩
    · have hends : Ends (Dropped s) (fun _ => True) (do
          let s' ← s.call w .onDisconnect
          return s'.clear) := by
        refine (drop_dropped s).bind fun s' hs' => ?_
        exact hs'
      exact hends.mono fun s' hs' => ⟨fun hf => absurd hv hf, fun _ => hs'⟩

theorem handleRead_failure (fuel : ℕ) (m : Option ℕ) (s : HSSession) (v : ℤ) :
    Ends (fun r => r.1 = m ∧ (handleError v = 0 → r.2 = s.start) ∧
        (handleError v ≠ 0 → Dropped s r.2))
      (fun _ => True) (s.handleRead w fuel m (.failure v)) := by
  simp only [handleRead]
  split_ifs with hv
  · exact ⟨rfl, fun _ => rfl, fun hne => absurd hv hne⟩
  · exact (drop_dropped s).bind fun s' hs' => ⟨rfl, fun he => absurd he hv, fun _ => hs'⟩

theorem decodeLoop_around (fuel : ℕ) (s : HSSession) :
    Ends (fun r => Around s r.2 ∧
        (∃ vs : List (List UInt8), r.2.calls = s.calls ++ vs.map .onReceive) ∧
        (r.1 = .rejected → s.closes < r.2.closes ∧ r.2.isConnected = false))
      (fun _ => True) (decodeLoop w fuel s) := by
  induction fuel generalizing s with
  | zero => trivial
  | succ fuel ih =>
    rw [decodeLoop]
    refine Ends.bind (P := fun _ => True) ?_ fun decoded _ => ?_
    · rw [HSRecvBuffer.decode]
      split_ifs <;> trivial
    · cases decoded with
      | incomplete => exact ⟨.refl s, ⟨[], by simp⟩, fun hrej => by cases hrej⟩
      | error => exact ⟨around_clear s, ⟨[], by simp [clear]⟩, fun _ => ⟨Nat.lt_succ_self _, rfl⟩⟩
      | complete nextOffset outSize =>
        dsimp only
        refine (call_around _ _).bind ?_
        rintro s₁ ⟨haround, -, hsome, hnone⟩
        have hstep : Around s s₁ :=
          ⟨haround.reads, haround.eventHandler, haround.closes, haround.isConnected⟩
        have hcalls : ∃ vs : List (List UInt8), s₁.calls = s.calls ++ vs.map .onReceive := by
          cases hh : s.eventHandler with
          | none => exact ⟨[], (hnone hh).trans (by simp)⟩
          | some handler => exact ⟨[_], hsome (by simp [hh])⟩
        split_ifs with hend
        · exact ⟨⟨hstep.reads, hstep.eventHandler, hstep.closes, hstep.isConnected⟩, hcalls,
            fun hrej => by cases hrej⟩
        · refine (ih _).mono ?_
          intro r hr
          obtain ⟨haround', hcalls', hrej⟩ := hr
          refine ⟨hstep.trans ⟨haround'.reads, haround'.eventHandler, haround'.closes,
            haround'.isConnected⟩, ?_, fun he => ?_⟩
          · obtain ⟨vs, hvs⟩ := hcalls
            obtain ⟨us, hus⟩ := hcalls'
            refine ⟨vs ++ us, ?_⟩
            rw [hus, List.map_append, ← List.append_assoc, ← hvs]
          · obtain ⟨hlt, hconn⟩ := hrej he
            exact ⟨lt_of_le_of_lt hstep.closes hlt, hconn⟩

theorem start_reads (s : HSSession) {reads : List ReadOp} (h : s.reads = reads) :
    ∃ op, s.start.reads = reads ++ [op] := ⟨_, congrArg (· ++ [_]) h⟩

theorem handleRead_success_around (fuel : ℕ) (m : Option ℕ) (s : HSSession) {n : ℕ} (hn : n ≠ 0) :
    Ends (fun r =>
        (∃ vs : List (List UInt8), r.2.calls = s.calls ++ vs.map .onReceive) ∧
        r.2.eventHandler = s.eventHandler ∧
        ((∃ op, r.2.reads = s.reads ++ [op] ∧ s.closes ≤ r.2.closes ∧
            (r.2.isConnected = true → s.isConnected = true)) ∨
          r.2.reads = s.reads ∧ s.closes < r.2.closes ∧ r.2.isConnected = false))
      (fun _ => True) (s.handleRead w fuel m (.success n)) := by
  simp only [handleRead, if_neg hn]
  refine (decodeLoop_around fuel _).bind ?_
  rintro ⟨e, s₁⟩ ⟨haround, hcalls, hrej⟩
  cases e with
  | rejected =>
    obtain ⟨hlt, hconn⟩ := hrej rfl
    exact ⟨hcalls, haround.eventHandler, Or.inr ⟨haround.reads, hlt, hconn⟩⟩
  | emptied =>
    obtain ⟨op, hop⟩ := start_reads s₁ haround.reads
    exact ⟨hcalls, haround.eventHandler, Or.inl ⟨op, hop, haround.closes, haround.isConnected⟩⟩
  | waiting =>
    dsimp only
    split_ifs
    · obtain ⟨op, hop⟩ := start_reads
        { s₁ with recvBuffer := s₁.recvBuffer.moveUnuseData2Begin } haround.reads
      exact ⟨hcalls, haround.eventHandler, Or.inl ⟨op, hop, haround.closes, haround.isConnected⟩⟩
    · obtain ⟨op, hop⟩ := start_reads s₁ haround.reads
      exact ⟨hcalls, haround.eventHandler, Or.inl ⟨op, hop, haround.closes, haround.isConnected⟩⟩

end HsCommon.HSSession
