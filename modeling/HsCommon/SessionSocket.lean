import HsCommon.SessionLoop

/-!
# What the handlers of a session do to its socket

Only `clear` closes the socket of a session and ends its connection. So a handler
leaves both as they are, or it has closed the socket and the session is not
connected. Which of the two a read does is told by the bytes that it brings.
-/

namespace HsCommon.HSSession
open Outcome

variable {w : ULongWidth} {fuel : ℕ} {s s' : HSSession} {P : HSSession → Prop}

structure SocketSide (P : HSSession → Prop) : Prop where
  frame : ∀ s s' : HSSession, P s → s'.socketOpen = s.socketOpen → s'.closes = s.closes →
    s'.isConnected = s.isConnected → P s'
  clear : ∀ s, P s → P s.clear

theorem SocketSide.handleWrite (hP : SocketSide P) (h : P s) :
    Ends P (fun _ => True) s.handleWrite := by
  rw [HSSession.handleWrite]
  refine Ends.bind (P := fun _ => True) ?_ fun canSend _ => ?_
  · rw [HSSendBuffer.getCanSendSize]
    split_ifs <;> trivial
  · split_ifs
    · exact h
    · exact h
    · exact hP.frame s _ h rfl rfl rfl

theorem SocketSide.send (hP : SocketSide P) (h : P s) (data : List UInt8) :
    Ends (fun r => P r.2) (fun _ => True) (s.send w data) := by
  rw [HSSession.send]
  refine Ends.bind (P := fun _ => True) ?_ fun encoded _ => ?_
  · cases encodePacket w data s.sendBuffer.buffer s.sendBuffer.inOffset
      s.sendBuffer.getLeftInSize <;> trivial
  · cases encoded with
    | tooLong => exact h
    | noRoom => exact (hP.handleWrite h).bind fun s' hs' => hs'
    | done outData outSize =>
      have h₁ : P (s.countEncoded outData outSize) := hP.frame s _ h rfl rfl rfl
      exact (hP.handleWrite h₁).bind fun s' hs' => hs'

theorem SocketSide.call (hP : SocketSide P) (h : P s) (c : Call) :
    Ends P (fun _ => True) (s.call w c) := by
  rw [HSSession.call]
  split
  · exact h
  · refine Ends.foldlM (fun s a _ hs => ?_) (hP.frame s _ h rfl rfl rfl)
    cases a with
    | send data => exact (hP.send hs data.val).bind fun r hr => hr
    | clear => exact hP.clear s hs

theorem SocketSide.decodeLoop (hP : SocketSide P) (h : P s) :
    Ends (fun r => P r.2) (fun _ => True) (decodeLoop w fuel s) := by
  induction fuel generalizing s with
  | zero => trivial
  | succ fuel ih =>
    rw [HSSession.decodeLoop]
    refine Ends.bind (P := fun _ => True) ?_ fun decoded _ => ?_
    · rw [HSRecvBuffer.decode]
      split_ifs <;> trivial
    · cases decoded with
      | incomplete => exact h
      | error => exact hP.clear s h
      | complete nextOffset outSize =>
        refine Ends.bind (hP.call ?_ _) fun s₁ h₁ => ?_
        · exact hP.frame s _ h rfl rfl rfl
        have h₂ : P { s₁ with recvBuffer := (s₁.recvBuffer.dataUse outSize false).2 } :=
          hP.frame s₁ _ h₁ rfl rfl rfl
        dsimp only
        split_ifs
        · exact h₂
        · exact ih h₂

theorem SocketSide.handleRead (hP : SocketSide P) (h : P s) (m : Option ℕ)
    (result : Completion ℕ) :
    Ends (fun r => P r.2) (fun _ => True) (s.handleRead w fuel m result) := by
  cases result with
  | success n =>
    simp only [HSSession.handleRead]
    split_ifs
    · exact h
    · refine Ends.bind (hP.decodeLoop ?_) ?_
      · exact hP.frame s _ h rfl rfl rfl
      rintro ⟨e, s₁⟩ h₁
      cases e with
      | rejected => exact h₁
      | emptied => exact hP.frame s₁ _ h₁ rfl rfl rfl
      | waiting =>
        dsimp only
        split_ifs <;> exact hP.frame s₁ _ h₁ rfl rfl rfl
  | failure v =>
    simp only [HSSession.handleRead]
    split_ifs
    · exact hP.frame s _ h rfl rfl rfl
    · exact (hP.call h _).bind fun s₁ h₁ => hP.clear s₁ h₁

theorem SocketSide.writeResult (hP : SocketSide P) (h : P s) (result : Completion ℕ) :
    Ends P (fun _ => True) (s.writeResult w result) := by
  have hidle : ∀ s₁ : HSSession, P s₁ → P { s₁ with handleSending := false } :=
    fun s₁ h₁ => hP.frame s₁ _ h₁ rfl rfl rfl
  cases result with
  | success n =>
    simp only [HSSession.writeResult]
    split_ifs
    · exact h
    · have h₁ : P { s with sendBuffer := s.sendBuffer.sent n } := hP.frame s _ h rfl rfl rfl
      refine Ends.bind (P := fun _ => True) ?_ fun canSend _ => ?_
      · rw [HSSendBuffer.getCanSendSize]
        split_ifs <;> trivial
      · split_ifs
        · exact (hP.handleWrite h₁).bind hidle
        · exact hidle _ h₁
  | failure v =>
    simp only [HSSession.writeResult]
    split_ifs
    · exact (hP.handleWrite h).bind hidle
    · exact (hP.call h _).bind fun s₁ h₁ => hidle _ (hP.clear s₁ h₁)

theorem SocketSide.exec (hP : SocketSide P) (h : P s) (m : Option ℕ) (e : SessionEvent) :
    Ends (fun r => P r.2) (fun _ => True) (s.exec w fuel m e) := by
  cases e with
  | send data => exact (hP.send h data.val).bind fun r hr => hr
  | readDone k result =>
    simp only [HSSession.exec]
    split
    · exact h
    · refine hP.handleRead ?_ m _
      cases result <;> exact hP.frame s _ h rfl rfl rfl
  | writeDone k result =>
    simp only [HSSession.exec]
    split
    · exact h
    · refine (hP.writeResult ?_ result).bind fun s₁ h₁ => h₁
      cases result <;> exact hP.frame s _ h rfl rfl rfl

structure SameSocket (s s' : HSSession) : Prop where
  socketOpen : s'.socketOpen = s.socketOpen
  closes : s'.closes = s.closes
  isConnected : s'.isConnected = s.isConnected

structure Shut (s s' : HSSession) : Prop where
  socketOpen : s'.socketOpen = false
  closes : s.closes < s'.closes
  isConnected : s'.isConnected = false

theorem socketSide_shut (s₀ : HSSession) :
    SocketSide fun s => SameSocket s₀ s ∨ Shut s₀ s where
  frame s s' h hopen hcloses hconn := by
    rcases h with h | h
    · exact Or.inl ⟨hopen.trans h.socketOpen, hcloses.trans h.closes, hconn.trans h.isConnected⟩
    · exact Or.inr ⟨hopen.trans h.socketOpen, hcloses ▸ h.closes, hconn.trans h.isConnected⟩
  clear s h := by
    refine Or.inr ⟨rfl, ?_, rfl⟩
    rcases h with h | h
    · exact Nat.lt_succ_of_le h.closes.ge
    · exact h.closes.trans (Nat.lt_succ_self _)

theorem exec_socket {m m' : Option ℕ} {e : SessionEvent}
    (h : s.exec w fuel m e = .ok (m', s')) : SameSocket s s' ∨ Shut s s' :=
  ((socketSide_shut s).exec (Or.inl ⟨rfl, rfl, rfl⟩) m e).result h

theorem connected_socket (h : s.connected w = .ok s') :
    s'.isConnected = true ∧ s.closes ≤ s'.closes := by
  have hends : Ends (fun s' => s'.isConnected = true ∧ s.closes ≤ s'.closes) (fun _ => True)
      (s.connected w) := by
    rw [connected]
    refine ((socketSide_shut s).call (Or.inl ⟨rfl, rfl, rfl⟩) _).bind fun s₁ h₁ => ⟨rfl, ?_⟩
    rcases h₁ with h₁ | h₁
    · exact h₁.closes.ge
    · exact h₁.closes.le
  exact hends.result h

/-- From the buffer on the loop comes to a bad packet or to one on which the handler clears. -/
inductive Clears (w : ULongWidth) (handler : Option EventHandler) : HSRecvBuffer → List Call → Prop
  | rejected {b : HSRecvBuffer} {calls : List Call} : b.decode w = .ok .error →
      Clears w handler b calls
  | cleared {b b₁ : HSRecvBuffer} {calls : List Call} {nextOffset outSize : ℕ} :
      b.decode w = .ok (.complete nextOffset outSize) → b₁ = (b.dataUse nextOffset false).2 →
      ClearsIn handler (calls ++ [.onReceive (b₁.bytes b₁.inUsedOffset outSize)]) →
      Clears w handler b calls
  | later {b b₁ b₂ : HSRecvBuffer} {calls : List Call} {nextOffset outSize : ℕ} :
      b.decode w = .ok (.complete nextOffset outSize) → b₁ = (b.dataUse nextOffset false).2 →
      b₂ = (b₁.dataUse outSize false).2 → b₂.inOffset ≠ b₂.getUsedSize →
      Clears w handler b₂ (calls ++ [.onReceive (b₁.bytes b₁.inUsedOffset outSize)]) →
      Clears w handler b calls

theorem Clears.none {b : HSRecvBuffer} {calls : List Call} (h : Clears w none b calls)
    (calls' : List Call) : Clears w none b calls' := by
  induction h generalizing calls' with
  | rejected hdec => exact .rejected hdec
  | cleared _ _ hc =>
    obtain ⟨handler, hmem, -⟩ := hc
    cases hmem
  | later hdec hb₁ hb₂ hne _ ih => exact .later hdec hb₁ hb₂ hne (ih _)

theorem actions_disconnect {as : List Action} {s s' : HSSession}
    (h : as.foldlM (runAction w) s = .ok s') (hc : .clear ∈ as ∨ s.isConnected = false) :
    s'.isConnected = false := by
  induction as generalizing s with
  | nil =>
    obtain rfl := Except.ok.inj h
    exact hc.resolve_left List.not_mem_nil
  | cons a as ih =>
    rw [List.foldlM_cons] at h
    obtain ⟨s₁, ha, h₁⟩ := exists_of_bind h
    refine ih h₁ ?_
    by_cases hclear : a = .clear
    · subst hclear
      obtain rfl := Except.ok.inj ha
      exact Or.inr rfl
    · refine hc.imp (fun hmem => ?_) fun hfalse => ?_
      · exact (List.mem_cons.mp hmem).resolve_left (Ne.symm hclear)
      · have haround := ((runAction_around s a).result ha).1
        exact Bool.eq_false_iff.mpr fun htrue => by simp [haround.isConnected htrue] at hfalse

theorem call_disconnect {c : Call} (h : s.call w c = .ok s') :
    (ClearsIn s.eventHandler (s.calls ++ [c]) → s'.isConnected = false) ∧
      (¬ ClearsIn s.eventHandler (s.calls ++ [c]) →
        s'.recvBuffer = s.recvBuffer ∧ s'.isConnected = s.isConnected) := by
  rw [call] at h
  split at h
  · rename_i hnone
    obtain rfl := Except.ok.inj h
    refine ⟨fun hc => ?_, fun _ => ⟨rfl, rfl⟩⟩
    obtain ⟨handler, hmem, -⟩ := hc
    rw [hnone] at hmem
    cases hmem
  · rename_i handler hsome
    constructor
    · rintro ⟨handler', hmem, hclear⟩
      obtain rfl : handler = handler' := Option.some.inj (hsome.symm.trans hmem)
      exact actions_disconnect h (Or.inl hclear)
    · intro hnot
      have hends : Ends (fun s' : HSSession => s'.recvBuffer = s.recvBuffer ∧
          s'.isConnected = s.isConnected) (fun _ => True)
          ((handler (s.calls ++ [c])).foldlM (runAction w) { s with calls := s.calls ++ [c] }) := by
        refine Ends.foldlM (fun s₁ a ha hs₁ => ?_) ⟨rfl, rfl⟩
        cases a with
        | clear => exact absurd ⟨handler, hsome, ha⟩ hnot
        | send data =>
          refine (send_sendSide s₁ data.val).bind fun r hr => ?_
          exact ⟨hr.recvBuffer.trans hs₁.1, hr.isConnected.trans hs₁.2⟩
      exact hends.result h

theorem socketSide_disconnected : SocketSide fun s => s.isConnected = false where
  frame _ _ h _ _ hsame := hsame.trans h
  clear _ _ := rfl

theorem not_clears_incomplete {handler : Option EventHandler} {b : HSRecvBuffer} {calls : List Call}
    (hdec : b.decode w = .ok .incomplete) : ¬ Clears w handler b calls := by
  rintro (hdec' | ⟨hdec', -⟩ | ⟨hdec', -⟩) <;>
  · rw [hdec] at hdec'
    cases hdec'

theorem clears_complete {handler : Option EventHandler} {b : HSRecvBuffer} {calls : List Call}
    {nextOffset outSize : ℕ} (hdec : b.decode w = .ok (.complete nextOffset outSize)) :
    let b₁ := (b.dataUse nextOffset false).2
    let b₂ := (b₁.dataUse outSize false).2
    let calls₁ := calls ++ [.onReceive (b₁.bytes b₁.inUsedOffset outSize)]
    Clears w handler b calls ↔
      ClearsIn handler calls₁ ∨ b₂.inOffset ≠ b₂.getUsedSize ∧ Clears w handler b₂ calls₁ := by
  intro b₁ b₂ calls₁
  constructor
  · intro h
    cases h with
    | rejected hdec' =>
      rw [hdec] at hdec'
      cases hdec'
    | cleared hdec' hb₁ hc =>
      cases hdec.symm.trans hdec'
      subst hb₁
      exact Or.inl hc
    | later hdec' hb₁ hb₂ hne hlater =>
      cases hdec.symm.trans hdec'
      subst hb₁ hb₂
      exact Or.inr ⟨hne, hlater⟩
  · rintro (hc | ⟨hne, hlater⟩)
    · exact .cleared hdec rfl hc
    · exact .later hdec rfl rfl hne hlater

theorem decodeLoop_clears {fuel : ℕ} {e : LoopEnd} (hconn : s.isConnected = true)
    (h : decodeLoop w fuel s = .ok (e, s')) :
    s'.isConnected = true ↔ ¬ Clears w s.eventHandler s.recvBuffer s.calls := by
  induction fuel generalizing s with
  | zero => cases h
  | succ fuel ih =>
    rw [decodeLoop] at h
    obtain ⟨decoded, hdec, h⟩ := exists_of_bind h
    cases decoded with
    | incomplete =>
      obtain ⟨-, rfl⟩ := Prod.mk.inj (Except.ok.inj h)
      exact iff_of_true hconn (not_clears_incomplete hdec)
    | error =>
      obtain ⟨-, rfl⟩ := Prod.mk.inj (Except.ok.inj h)
      exact iff_of_false (fun hc => by cases hc) (not_not.mpr (.rejected hdec))
    | complete nextOffset outSize =>
      obtain ⟨s₁, hcall, h⟩ := exists_of_bind h
      dsimp only at hcall h
      obtain ⟨hclear, hkeep⟩ := call_disconnect hcall
      obtain ⟨haround, -, hcalls, -⟩ := (call_around _ _).result hcall
      refine Iff.trans ?_ (not_congr (clears_complete hdec).symm)
      by_cases hc : ClearsIn s.eventHandler (s.calls ++ [.onReceive
          ((s.recvBuffer.dataUse nextOffset false).2.bytes
            (s.recvBuffer.dataUse nextOffset false).2.inUsedOffset outSize)])
      · -- once cleared, the session is not connected again
        have hlost : s'.isConnected = false := by
          split_ifs at h with hend
          · obtain ⟨-, rfl⟩ := Prod.mk.inj (Except.ok.inj h)
            exact hclear hc
          · exact (@SocketSide.decodeLoop w fuel { s₁ with
              recvBuffer := (s₁.recvBuffer.dataUse outSize false).2 } _ socketSide_disconnected
              (hclear hc)).result h
        exact iff_of_false (by simp [hlost]) (not_not.mpr (Or.inl hc))
      · have hrecv : s₁.recvBuffer = (s.recvBuffer.dataUse nextOffset false).2 := (hkeep hc).1
        have hsame : s₁.isConnected = s.isConnected := (hkeep hc).2
        rw [or_iff_right hc, ← hrecv]
        split_ifs at h with hend
        · obtain ⟨-, rfl⟩ := Prod.mk.inj (Except.ok.inj h)
          exact iff_of_true (hsame.trans hconn) fun hlater => hlater.1 hend
        · rw [and_iff_right hend, @ih { s₁ with
            recvBuffer := (s₁.recvBuffer.dataUse outSize false).2 } (hsame.trans hconn) h]
          dsimp only
          rw [haround.eventHandler]
          refine not_congr ?_
          cases hh : s.eventHandler with
          | none => exact ⟨fun hlater => hlater.none _, fun hlater => hlater.none _⟩
          | some handler => rw [hcalls (hh ▸ rfl), hrecv]

/-- A read or a write ends with an error, or a read brings bytes at which the session is cleared. -/
def Disconnects (w : ULongWidth) (s : HSSession) : SessionEvent → Prop
  | .send _ => False
  | .writeDone _ result => Fails result
  | .readDone _ (.failure v) => handleError v ≠ 0
  | .readDone k (.success chunk) => chunk ≠ [] ∧ ∃ op ∈ s.reads[k]?,
    Clears w s.eventHandler (s.atLoop k op chunk).recvBuffer s.calls

theorem afterLoop_isConnected (m : Option ℕ) (e : LoopEnd) (s : HSSession) :
    (afterLoop m (e, s)).2.isConnected = s.isConnected := by
  cases e with
  | rejected => rfl
  | emptied => rfl
  | waiting =>
    simp only [afterLoop, start, compacted]
    split_ifs <;> rfl

theorem writeDone_disconnects {m m' : Option ℕ} {k : ℕ} {result : Completion ℕ}
    (hconn : s.isConnected = true) (hposs : s.Possible (.writeDone k result))
    (hexec : s.exec w fuel m (.writeDone k result) = .ok (m', s')) :
    s'.isConnected = true ↔ ¬ Fails result := by
  have hends : Ends (fun r => (¬ Fails result → r.2.isConnected = true) ∧
      (Fails result → r.2.isConnected = false)) (fun _ => True)
      (s.exec w fuel m (.writeDone k result)) := by
    simp only [exec]
    split
    · rename_i hnone
      exfalso
      cases result with
      | success n =>
        obtain ⟨op, hop, -⟩ := hposs
        have hop' : s.writes[k]? = some op := hop
        rw [hnone] at hop'
        cases hop'
      | failure v => exact absurd hposs (not_lt.mpr (List.getElem?_eq_none_iff.mp hnone))
    · rename_i op hop
      refine (writeResult_cases _ result).bind fun s₁ hs₁ => ⟨fun hnot => ?_, fun hfails => ?_⟩
      · refine (hs₁.1 hnot).isConnected.trans ?_
        cases result <;> exact hconn
      · exact (hs₁.2 hfails).isConnected
  obtain ⟨hkept, hlost⟩ := hends.result hexec
  constructor
  · intro hc hfails
    rw [hlost hfails] at hc
    cases hc
  · exact hkept

theorem readDone_disconnects {m m' : Option ℕ} {k : ℕ} {chunk : List UInt8} {op : ReadOp}
    (hconn : s.isConnected = true) (hop : s.reads[k]? = some op) (hne : chunk ≠ [])
    (hexec : s.exec w fuel m (.readDone k (.success chunk)) = .ok (m', s')) :
    s'.isConnected = true ↔ ¬ Clears w s.eventHandler (s.atLoop k op chunk).recvBuffer s.calls := by
  rw [exec_readDone hop hne] at hexec
  cases hloop : decodeLoop w fuel (s.atLoop k op chunk) with
  | error f =>
    rw [hloop] at hexec
    cases hexec
  | ok r =>
    rw [hloop] at hexec
    have hs' : s'.isConnected = r.2.isConnected := by
      rw [← (Prod.mk.inj (Except.ok.inj hexec)).2]
      exact afterLoop_isConnected m r.1 r.2
    rw [hs']
    exact decodeLoop_clears (s := s.atLoop k op chunk) hconn hloop

theorem readFailed_disconnects {m m' : Option ℕ} {k : ℕ} {v : ℤ} (hconn : s.isConnected = true)
    (hk : k < s.reads.length) (hexec : s.exec w fuel m (.readDone k (.failure v)) = .ok (m', s')) :
    s'.isConnected = true ↔ ¬ handleError v ≠ 0 := by
  have hop : s.reads[k]? = some s.reads[k] := List.getElem?_eq_getElem hk
  simp only [exec, hop] at hexec
  obtain ⟨-, hkept, hlost⟩ := (handleRead_failure fuel m _ v).result hexec
  constructor
  · intro hc hfails
    have hs' := (hlost hfails).isConnected
    rw [hc] at hs'
    cases hs'
  · intro hnot
    have hs' : s' = _ := hkept (not_not.mp hnot)
    rw [hs']
    exact hconn

theorem disconnects_iff {m m' : Option ℕ} {e : SessionEvent}
    (hconn : s.isConnected = true) (hposs : s.Possible e)
    (hexec : s.exec w fuel m e = .ok (m', s')) :
    s'.isConnected = true ↔ ¬ Disconnects w s e := by
  cases e with
  | send data =>
    have hends : Ends (fun r => r.2.isConnected = s.isConnected) (fun _ => True)
        (s.exec w fuel m (.send data)) :=
      (send_sendSide s data.val).bind fun r hr => hr.isConnected
    exact iff_of_true ((hends.result hexec).trans hconn) id
  | writeDone k result => exact writeDone_disconnects hconn hposs hexec
  | readDone k result =>
    cases result with
    | failure v => exact readFailed_disconnects hconn hposs hexec
    | success chunk =>
      obtain ⟨op, hop, -⟩ := hposs
      have hop' : s.reads[k]? = some op := hop
      by_cases hne : chunk = []
      · subst hne
        simp only [exec, hop', Completion.count, handleRead] at hexec
        obtain ⟨-, rfl⟩ := Prod.mk.inj (Except.ok.inj hexec)
        exact iff_of_true hconn fun hdis => hdis.1 rfl
      · rw [readDone_disconnects hconn hop' hne hexec, Disconnects]
        refine not_congr ⟨fun hc => ⟨hne, op, hop, hc⟩, ?_⟩
        rintro ⟨-, op', hop₁, hc⟩
        rwa [Option.some.inj (hop'.symm.trans hop₁)]

end HsCommon.HSSession
