import HsCommon.PacketRoundTrip
import HsCommon.SessionHandlers

/-!
# What the code of a session does to its logs

Only `send` appends, and it appends encodings; only the completion of a write adds
to what the socket has taken. So a property of the two logs that another encoding
does not break is kept by the handlers and the decode loop, whatever they do
besides.
-/

namespace HsCommon.HSSession
open Outcome

variable {w : ULongWidth} {fuel : ℕ} {s : HSSession} {P : HSSession → Prop}

structure LogSide (w : ULongWidth) (P : HSSession → Prop) : Prop where
  frame : ∀ s s' : HSSession, P s → s'.appended = s.appended → s'.accepted = s.accepted → P s'
  append : ∀ (s : HSSession) (data x : List UInt8), P s → IsEncoding w data x →
    P { s with appended := s.appended ++ [x] }

theorem LogSide.handleWrite (hP : LogSide w P) (h : P s) :
    Ends P (fun _ => True) s.handleWrite := by
  rw [HSSession.handleWrite]
  refine Ends.bind (P := fun _ => True) ?_ fun canSend _ => ?_
  · rw [HSSendBuffer.getCanSendSize]
    split_ifs <;> trivial
  · split_ifs
    · exact h
    · exact h
    · exact hP.frame s _ h rfl rfl

theorem LogSide.countEncoded (hP : LogSide w P) (h : P s) {data : List UInt8} {outData : ℕ → UInt8}
    {outSize : ℕ} (he : encodePacket w data s.sendBuffer.buffer s.sendBuffer.inOffset
      s.sendBuffer.getLeftInSize = .ok (.done outData outSize)) :
    P (s.countEncoded outData outSize) := by
  have hroom : s.sendBuffer.getLeftInSize < 2 ^ 64 := Nat.mod_lt _ (by decide)
  cases hbuf : s.sendBuffer.buffer with
  | none =>
    rw [hbuf, encodePacket] at he
    split_ifs at he
    all_goals cases he
  | some m =>
    rw [hbuf] at he
    obtain ⟨hfits, rfl, hat⟩ := encodePacket_done hroom he
    have henc := @isEncoding_skipped w m s.sendBuffer.inOffset data hfits
    rw [BytesAt, packet_length] at hat
    rw [← hat] at henc
    unfold HSSession.countEncoded
    dsimp only
    split_ifs with hin
    · exact hP.frame _ _ (hP.append s data _ h henc) rfl rfl
    · exact hP.frame s _ h rfl rfl

theorem LogSide.send (hP : LogSide w P) (h : P s) (data : List UInt8) :
    Ends (fun r => P r.2) (fun _ => True) (s.send w data) := by
  rw [HSSession.send]
  cases he : encodePacket w data s.sendBuffer.buffer s.sendBuffer.inOffset
    s.sendBuffer.getLeftInSize with
  | error f => trivial
  | ok encoded =>
    cases encoded with
    | tooLong => exact h
    | noRoom => exact (hP.handleWrite h).bind fun s' hs' => hs'
    | done outData outSize =>
      exact (hP.handleWrite (hP.countEncoded h he)).bind fun s' hs' => hs'

theorem LogSide.clear (hP : LogSide w P) (h : P s) : P s.clear := hP.frame s _ h rfl rfl

theorem LogSide.call (hP : LogSide w P) (h : P s) (c : Call) :
    Ends P (fun _ => True) (s.call w c) := by
  rw [HSSession.call]
  split
  · exact h
  · refine Ends.foldlM (fun s a _ hs => ?_) (hP.frame s _ h rfl rfl)
    cases a with
    | send data => exact (hP.send hs data.val).bind fun r hr => hr
    | clear => exact hP.clear hs

theorem LogSide.decodeLoop (hP : LogSide w P) (h : P s) :
    Ends (fun r => P r.2) (fun _ => True) (decodeLoop w fuel s) := by
  induction fuel generalizing s with
  | zero => trivial
  | succ fuel ih =>
    rw [HSSession.decodeLoop]
    refine Ends.bind (P := fun _ => True) ?_ fun decoded _ => ?_
    · rw [HSRecvBuffer.decode]
      split_ifs <;> trivial
    · cases decoded with
      | incomplete => exact h
      | error => exact hP.clear h
      | complete nextOffset outSize =>
        refine Ends.bind (hP.call ?_ _) fun s₁ h₁ => ?_
        · exact hP.frame s _ h rfl rfl
        have h₂ : P { s₁ with recvBuffer := (s₁.recvBuffer.dataUse outSize false).2 } :=
          hP.frame s₁ _ h₁ rfl rfl
        dsimp only
        split_ifs
        · exact h₂
        · exact ih h₂

theorem LogSide.handleRead (hP : LogSide w P) (h : P s) (m : Option ℕ) (result : Completion ℕ) :
    Ends (fun r => P r.2) (fun _ => True) (s.handleRead w fuel m result) := by
  cases result with
  | success n =>
    simp only [HSSession.handleRead]
    split_ifs
    · exact h
    · refine Ends.bind (hP.decodeLoop ?_) ?_
      · exact hP.frame s _ h rfl rfl
      rintro ⟨e, s₁⟩ h₁
      cases e with
      | rejected => exact h₁
      | emptied => exact hP.frame s₁ _ h₁ rfl rfl
      | waiting =>
        dsimp only
        split_ifs <;> exact hP.frame s₁ _ h₁ rfl rfl
  | failure v =>
    simp only [HSSession.handleRead]
    split_ifs
    · exact hP.frame s _ h rfl rfl
    · exact (hP.call h _).bind fun s₁ h₁ => hP.clear h₁

theorem LogSide.readDone (hP : LogSide w P) (h : P s) (m : Option ℕ) (k : ℕ)
    (result : Completion (List UInt8)) :
    Ends (fun r => P r.2) (fun _ => True) (s.exec w fuel m (.readDone k result)) := by
  simp only [HSSession.exec]
  split
  · exact h
  · refine hP.handleRead ?_ m _
    cases result <;> exact hP.frame s _ h rfl rfl

def Packed (w : ULongWidth) (s : HSSession) : Prop :=
  ∃ datas, List.Forall₂ (IsEncoding w) datas s.appended

/-- All that was appended is packets, and the socket has taken `xs`. -/
def Logged (w : ULongWidth) (xs : List UInt8) (s : HSSession) : Prop :=
  Packed w s ∧ s.accepted = xs

theorem logSide_logged (w : ULongWidth) (xs : List UInt8) : LogSide w (Logged w xs) where
  frame s s' h happ hacc := by
    obtain ⟨⟨datas, henc⟩, htaken⟩ := h
    exact ⟨⟨datas, happ ▸ henc⟩, hacc.trans htaken⟩
  append s data x h hx := by
    obtain ⟨⟨datas, henc⟩, htaken⟩ := h
    exact ⟨⟨datas ++ [data], List.rel_append henc (.cons hx .nil)⟩, htaken⟩

end HsCommon.HSSession
